import Lumina.Etl.Text
import Lumina.Library.Ownership
import Lumina.Platform.Notifications
import Lumina.Quota.Counter
import Mathlib.Data.List.Dedup
import Mathlib.Data.List.Sort

/-!
# The notifications at the thresholds of a quota

Any number of sessions reserve, commit and release an amount of one resource within one period, and
write notifications to the database.  A session that has seen the use beyond a threshold tries to
set the guard of the largest threshold crossed; the one that sets it writes the notifications, of
all thresholds crossed, for all recipients.  A guard may expire at any time.

The programs are those of `QuotaService`, with the notification carried out as it is by
`NotificationService`.  The users with the roles of the administration are read and not written.
-/

namespace Lumina.Quota.Alerts

open Interleaving Transition ReadCommitted
open Platform.Notifications (UserId Key Notification NotifyError DedupeKey Tx deliver)

structure Settings where
  name : String
  metering : Metering
  limit : ℕ
  ttlSeconds : ℕ
  /-- `_period_label` -/
  periodStart : String
  notificationQuotaThresholds : String := "80;100"
  /-- `int`, of a string; none for `ValueError`. -/
  int : String → Option ℤ
  notificationEmailEnabled : Bool
  /-- `active_with_roles` -/
  recipients : List UserId

def strip (s : String) : String := String.ofList (Etl.strip s.toList)

section Service

variable (cfg : Settings)

/-- `quota_thresholds`: an entry that is not a percentage is left out. -/
def quotaThresholds : List ℕ :=
  let values := (cfg.notificationQuotaThresholds.toList.splitOn ';').filterMap fun entry =>
    let entry := strip (String.ofList entry)
    if entry = "" then
      none
    else
      (cfg.int entry).bind fun value =>
        if 0 < value ∧ value ≤ 100 then some value.toNat else none
  values.dedup.insertionSort (· ≤ ·)

def Settings.resource : Resource where
  name := cfg.name
  metering := cfg.metering
  limit := some cfg.limit
  thresholds := quotaThresholds cfg
  ttlSeconds := cfg.ttlSeconds

/-- `_RESOURCE_LABELS` -/
def resourceLabel : String → String
  | "tokens_month" => "本月 token"
  | "messages_day" => "今日訊息數"
  | "documents" => "文件數"
  | "storage_bytes" => "儲存空間"
  | "streams" => "同時串流數"
  | resource => resource

/-- The loop of `notify_quota_threshold`. -/
def deliverThresholds (used : ℤ) (limit : ℕ) (percent : ℤ) : List ℕ → Tx Op.Reply (List Key)
  | [] => return []
  | threshold :: thresholds => do
    if percent < threshold then
      deliverThresholds used limit percent thresholds
    else
      let label := resourceLabel cfg.name
      let title := if 100 ≤ threshold then s!"{label}已用盡" else s!"{label}已用掉 {threshold}%"
      let body := s!"目前用量 {used} / {limit}。" ++
        if 100 ≤ threshold then "超過的請求會被擋下。" else ""
      let pending ← deliver cfg.notificationEmailEnabled .quotaThreshold title body
        { resource := cfg.name, threshold, used := used.toNat, limit }
        (.quotaThreshold cfg.name cfg.periodStart threshold) cfg.recipients
      let others ← deliverThresholds used limit percent thresholds
      return pending ++ others

/-- `NotificationService.notify_quota_threshold`, which raises nothing. -/
def notifyQuotaThreshold (used : ℤ) (limit : ℕ) : Tx Op.Reply (List Key) :=
  if limit = 0 then
    return []
  else
    (unitOfWork (deliverThresholds cfg used limit (used * 100 / limit)
      (quotaThresholds cfg))).handle fun _ => return []

/-- How an operation of `QuotaService` is carried out. -/
def carryOut : (op : Op) → Tx Op.Reply (Except QuotaExceededError op.Reply)
  | .notify used limit => do
    let _ ← notifyQuotaThreshold cfg used limit
    return .ok ()
  | op => do
    let reply ← external op
    return .ok reply

inductive Call where
  | reserve (amount : ℕ)
  | commit (r : QuotaReservation) (actual : Option ℕ)
  | release (r : QuotaReservation)
deriving DecidableEq, Repr

def Call.prog : Call → Prog (Option QuotaReservation)
  | .reserve amount => checkAndReserve cfg.resource amount
  | .commit r actual => do
    Quota.commit r actual
    return none
  | .release r => do
    Quota.release r
    return none

/-- The use crosses the threshold, which is a percentage. -/
def Crosses (used : ℤ) (threshold : ℕ) : Prop := (threshold : ℤ) * cfg.limit ≤ used * 100

instance (used : ℤ) (threshold : ℕ) : Decidable (Crosses cfg used threshold) :=
  inferInstanceAs (Decidable (_ ≤ _))

/-- The store of the counter and the guards.  Two ghosts beside it: what the calls of
`check_and_reserve` have seen of the use, and for each session what it has seen beyond a threshold
and not dealt with yet, and whether it has set the guard for it. -/
structure World where
  store : Store := {}
  observed : List ℤ := []
  owed : ℕ → Option (ℤ × Bool) := fun _ => none

/-- A call of `check_and_reserve` has seen the use. -/
def World.observe (t : ℕ) (used : ℤ) (w : World) : World :=
  { w with
    observed := used :: w.observed
    owed :=
      if ∃ threshold ∈ quotaThresholds cfg, Crosses cfg used threshold then
        Function.update w.owed t (some (used, false))
      else
        w.owed }

/-- The ghosts after an operation. -/
def World.note (t : ℕ) (call : Call) : (op : Op) → op.Reply → World → World
  | .dbUsed, used, w =>
    match call with
    | .reserve amount => w.observe cfg t (used + amount)
    | _ => w
  | .incrby _, usedAfter, w =>
    match call with
    | .reserve _ => w.observe cfg t usedAfter
    | _ => w
  | .setGuard _, set, w =>
    let owed := if set then (w.owed t).map fun owed => (owed.1, true) else none
    { w with owed := Function.update w.owed t owed }
  | _, _, w => w

inductive Change where
  | expireGuard (threshold : ℕ)
  /-- The counter of the period is set, by whoever else. -/
  | setCounter (value : ℤ)
  | setDbUsed (used : ℕ)
deriving DecidableEq, Repr

def World.change : Change → World → World
  | .expireGuard threshold, w =>
    { w with store := { w.store with guards := w.store.guards.filter (· ≠ threshold) } }
  | .setCounter value, w => { w with store := { w.store with counter := value } }
  | .setDbUsed used, w => { w with store := { w.store with dbUsed := used } }

/-- The reply of an operation and what it leaves. -/
def World.exec (t : ℕ) (call : Call) (op : Op) (w : World) : op.Reply × World :=
  let (reply, store) := w.store.exec op
  (reply, World.note cfg t call op reply { w with store })

/-- Sessions of the service.  The only transactions are those that write notifications. -/
def service : Server ℕ Key Notification Op.Reply World Call NotifyError
    (Except QuotaExceededError (Option QuotaReservation)) Change where
  program call := (call.prog cfg).interpret (carryOut cfg)
  external t call op w := some (.ok (w.exec cfg t call op).1, (w.exec cfg t call op).2)
  fails _ _ _ := false
  record t _ w := { w with owed := Function.update w.owed t none }
  environment change w := some (w.change change)

end Service

/-! ### The thresholds -/

section Thresholds

variable {cfg : Settings}

theorem quotaThresholds_le {threshold : ℕ} (h : threshold ∈ quotaThresholds cfg) :
  0 < threshold ∧ threshold ≤ 100
  := by
  unfold quotaThresholds at h
  rw [List.mem_insertionSort, List.mem_dedup, List.mem_filterMap] at h
  obtain ⟨entry, -, h⟩ := h
  dsimp only at h
  split at h
  next => cases h
  next =>
    obtain ⟨value, -, h⟩ := Option.bind_eq_some_iff.mp h
    split at h
    next percent =>
      cases h
      omega
    next => cases h

/-- The smallest threshold comes first. -/
theorem quotaThresholds_first {first : ℕ} {others : List ℕ}
    (h : quotaThresholds cfg = first :: others) :
  ∀ threshold ∈ quotaThresholds cfg, first ≤ threshold
  := by
  have sorted : (quotaThresholds cfg).Pairwise (· ≤ ·) := List.pairwise_insertionSort _ _
  rw [h] at sorted
  intro threshold hmem
  rw [h] at hmem
  obtain rfl | hmem := List.mem_cons.mp hmem
  · exact Nat.le_refl _
  · exact (List.pairwise_cons.mp sorted).1 threshold hmem

theorem le_foldl_max (values : List ℕ) (a : ℕ) :
  a ≤ values.foldl max a ∧ ∀ value ∈ values, value ≤ values.foldl max a
  := by
  induction values generalizing a with
  | nil => exact ⟨Nat.le_refl a, nofun⟩
  | cons value values ih =>
    obtain ⟨start, others⟩ := ih (max a value)
    refine ⟨Nat.le_trans (Nat.le_max_left a value) start, ?_⟩
    intro other hother
    obtain rfl | hother := List.mem_cons.mp hother
    · exact Nat.le_trans (Nat.le_max_right a other) start
    · exact others other hother

theorem foldl_max_mem (values : List ℕ) (a : ℕ) :
  values.foldl max a = a ∨ values.foldl max a ∈ values
  := by
  induction values generalizing a with
  | nil => exact Or.inl rfl
  | cons value values ih =>
    obtain start | found := ih (max a value)
    · obtain left | right := Nat.le_total a value |>.symm
      · left
        exact start.trans (Nat.max_eq_left left)
      · right
        rw [List.foldl_cons, start, Nat.max_eq_right right]
        exact List.mem_cons_self
    · exact Or.inr (List.mem_cons_of_mem _ found)

/-- The guard of a use stands for all the thresholds it crosses. -/
theorem le_crossed_iff {used : ℤ} {threshold : ℕ} (h : threshold ∈ quotaThresholds cfg) :
  threshold ≤ crossed (quotaThresholds cfg) used cfg.limit ↔ Crosses cfg used threshold
  := by
  have mem : ∀ t, t ∈ (quotaThresholds cfg).filter (fun t : ℕ => (t : ℤ) * cfg.limit ≤ used * 100) ↔
      t ∈ quotaThresholds cfg ∧ Crosses cfg used t := by
    intro t
    rw [List.mem_filter, decide_eq_true_eq]
    rfl
  constructor
  · intro le
    obtain zero | found := foldl_max_mem ((quotaThresholds cfg).filter
      fun t : ℕ => (t : ℤ) * cfg.limit ≤ used * 100) 0
    · have positive := (quotaThresholds_le h).1
      unfold crossed at le
      omega
    · have largest : Crosses cfg used (crossed (quotaThresholds cfg) used cfg.limit) :=
        ((mem _).mp found).2
      have le : (threshold : ℤ) ≤ crossed (quotaThresholds cfg) used cfg.limit := by
        exact_mod_cast le
      exact Int.le_trans (Int.mul_le_mul_of_nonneg_right le (Int.natCast_nonneg _)) largest
  · intro crosses
    exact (le_foldl_max _ 0).2 threshold ((mem threshold).mpr ⟨h, crosses⟩)

/-- The percentage that is written crosses the same thresholds as the use. -/
theorem percent_lt_iff (positive : 0 < cfg.limit) {used : ℤ} {threshold : ℕ}
    (h : threshold ∈ quotaThresholds cfg) :
  min used cfg.limit * 100 / cfg.limit < threshold ↔ ¬Crosses cfg used threshold
  := by
  have percent : (threshold : ℤ) ≤ 100 := by exact_mod_cast (quotaThresholds_le h).2
  have positive : (0 : ℤ) < cfg.limit := by exact_mod_cast positive
  have bound : (threshold : ℤ) * cfg.limit ≤ cfg.limit * 100 := by
    rw [mul_comm (cfg.limit : ℤ)]
    exact Int.mul_le_mul_of_nonneg_right percent positive.le
  rw [← not_le, Int.le_ediv_iff_mul_le positive, not_iff_not]
  unfold Crosses
  omega

end Thresholds

/-! ### What the sessions keep to -/

section Discipline

variable (cfg : Settings)

abbrev AlertData := Data ℕ Key Notification World

def rowKey (userId : UserId) (threshold : ℕ) : Key :=
  ⟨userId, .quotaThreshold cfg.name cfg.periodStart threshold⟩

/-- All recipients have the notification of the threshold. -/
def Delivered (d : AlertData) (threshold : ℕ) : Prop :=
  ∀ userId ∈ cfg.recipients, (d.db.committed (rowKey cfg userId threshold)).isSome

/-- A threshold that has been crossed is delivered, or a session is to see to it; where there is a
guard, a session that has set it. -/
structure Exact (d : AlertData) : Prop where
  seen : ∀ used ∈ d.world.observed, ∀ threshold ∈ quotaThresholds cfg,
    Crosses cfg used threshold → Delivered cfg d threshold ∨
      ∃ t owed, d.world.owed t = some owed ∧ Crosses cfg owed.1 threshold
  guarded : ∀ guard ∈ d.world.store.guards, ∀ threshold ∈ quotaThresholds cfg,
    threshold ≤ guard → Delivered cfg d threshold ∨
      ∃ t used, d.world.owed t = some (used, true) ∧ Crosses cfg used threshold
  rows : ∀ userId threshold, (d.db.committed (rowKey cfg userId threshold)).isSome →
    ∃ used ∈ d.world.observed, Crosses cfg used threshold

/-- What the others may do, as a session notices it. -/
structure Rely (t : ℕ) (d d' : AlertData) : Prop where
  observed : d.world.observed ⊆ d'.world.observed
  committed : ∀ key, (d.db.committed key).isSome → (d'.db.committed key).isSome
  frame : Db.Frame t d.db d'.db
  owed : d'.world.owed t = d.world.owed t

def discipline : Server.Discipline ℕ Key Notification World where
  holds := Exact cfg
  rely := Rely
  rest t d := d.db.Idle t ∧ d.world.owed t = none
  refl t d := ⟨List.Subset.refl _, fun _ h => h, Db.Frame.refl t d.db, rfl⟩
  trans h h' := ⟨List.Subset.trans h.observed h'.observed,
    fun key present => h'.committed key (h.committed key present), h.frame.trans h'.frame,
    h'.owed.trans h.owed⟩
  stable h rest := ⟨h.frame.idle rest.1, h.owed.trans rest.2⟩

variable {cfg} {t : ℕ} {c : Call}

/-- The others keep an assertion about a session. -/
def Kept (t : ℕ) (P : AlertData → Prop) : Prop := ∀ d d', Rely t d d' → P d → P d'

variable {α β : Type} {P : AlertData → Prop} {p : Tx Op.Reply α} {Q : α → AlertData → Prop}

/-- An outline of a program that does not raise. -/
def Outline (cfg : Settings) (t : ℕ) (c : Call) (P : AlertData → Prop) (p : Tx Op.Reply α)
    (Q : α → AlertData → Prop) : Prop :=
  ((discipline cfg).contract (service cfg) t c).Triple (fun d => Exact cfg d ∧ P d) p
    fun r d => ∃ a, r = .ok a ∧ Exact cfg d ∧ Q a d

theorem Kept.stable (h : Kept t P) :
  ((discipline cfg).contract (service cfg) t c).Stable fun d => Exact cfg d ∧ P d
  := by
  rintro d d' ⟨exact_, hP⟩ ⟨holds, rely⟩
  exact ⟨holds exact_, h d d' rely hP⟩

namespace Outline

theorem conseq (h : Outline cfg t c P p Q) {P' : AlertData → Prop} {Q' : α → AlertData → Prop}
    (hP : ∀ d, P' d → P d) (hQ : ∀ a d, Q a d → Q' a d) :
  Outline cfg t c P' p Q'
  := by
  apply Contract.Triple.conseq h
  · exact fun d h => ⟨h.1, hP d h.2⟩
  · rintro r d ⟨a, hr, hd, hQ'⟩
    exact ⟨a, hr, hd, hQ a d hQ'⟩

theorem pure {a : α} (hP : Kept t P) (hQ : ∀ d, P d → Q a d) :
  Outline cfg t c P (.pure a) Q
  := by
  apply Contract.Triple.pure hP.stable
  exact fun d h => ⟨a, rfl, h.1, hQ d h.2⟩

theorem bind {f : α → Tx Op.Reply β} {Q' : β → AlertData → Prop} (h : Outline cfg t c P p Q)
    (hf : ∀ a, Outline cfg t c (Q a) (f a) Q') :
  Outline cfg t c P (p >>= f) Q'
  := by
  apply Contract.Triple.bind h
  · intro a
    constructor
    rintro d ⟨a', ⟨⟩, hd, hQ⟩
    exact (hf a).safe d ⟨hd, hQ⟩
  · rintro e d ⟨a, ⟨⟩, -⟩

/-- The rule of a statement. -/
theorem query {s : Stmt Key Notification} {Q : s.Reply → AlertData → Prop} (hP : Kept t P)
    (step : ∀ d r db, Exact cfg d → P d → d.db.exec t s = some (r, db) →
      Exact cfg ⟨db, (service cfg).after t c s d.world⟩ ∧
        (∀ key, (d.db.committed key).isSome → (db.committed key).isSome) ∧
          Q r ⟨db, (service cfg).after t c s d.world⟩)
    (hQ : ∀ r, Kept t (Q r)) :
  Outline cfg t c P (ReadCommitted.query s) Q
  := by
  apply Contract.Triple.perform hP.stable
  · rintro d r d' ⟨hd, hP⟩ (hperform | ⟨-, e, fails, -⟩)
    · obtain ⟨⟨r', db⟩, hexec, h⟩ := Option.map_eq_some_iff.mp hperform
      cases h
      obtain ⟨hholds, committed, hQ⟩ := step d r' db hd hP hexec
      refine ⟨⟨hholds, fun t' hne => ⟨?_, committed, Db.Frame.of_exec hne hexec, ?_⟩⟩, r', rfl,
        hholds, hQ⟩
      · cases s
        all_goals exact List.Subset.refl _
      · cases s
        case commit => exact Function.update_of_ne hne _ _
        all_goals rfl
    · rw [Server.mayFail] at fails
      cases (Bool.and_eq_true_iff.mp fails).2
  · intro r
    rintro d d' ⟨a, hr, hd, hQ'⟩ ⟨holds, rely⟩
    exact ⟨a, hr, holds hd, hQ a d d' rely hQ'⟩

/-- What an operation outside the database leaves to the other sessions. -/
theorem rely_exec {t' : ℕ} (hne : t' ≠ t) (op : Op) (d : AlertData) :
  Rely t' d ⟨d.db, (d.world.exec cfg t c op).2⟩
  := by
  have observe (used : ℤ) (w : World) :
      w.observed ⊆ (w.observe cfg t used).observed ∧ (w.observe cfg t used).owed t' = w.owed t' := by
    refine ⟨List.subset_cons_self _ _, ?_⟩
    unfold World.observe
    dsimp only
    split
    · exact Function.update_of_ne hne _ _
    · rfl
  have noted : d.world.observed ⊆ (d.world.exec cfg t c op).2.observed ∧
      (d.world.exec cfg t c op).2.owed t' = d.world.owed t' := by
    cases op with
    | dbUsed =>
      cases c
      case reserve amount => exact observe _ _
      all_goals exact ⟨List.Subset.refl _, rfl⟩
    | incrby n =>
      cases c
      case reserve amount => exact observe _ _
      all_goals exact ⟨List.Subset.refl _, rfl⟩
    | setGuard threshold => exact ⟨List.Subset.refl _, Function.update_of_ne hne _ _⟩
    | _ => exact ⟨List.Subset.refl _, rfl⟩
  exact ⟨noted.1, fun _ h => h, Db.Frame.refl t' d.db, noted.2⟩

/-- The rule of an operation outside the database. -/
theorem external {op : Op} {Q : op.Reply → AlertData → Prop} (hP : Kept t P)
    (step : ∀ d, Exact cfg d → P d → Exact cfg ⟨d.db, (d.world.exec cfg t c op).2⟩ ∧
      Q (d.world.exec cfg t c op).1 ⟨d.db, (d.world.exec cfg t c op).2⟩)
    (hQ : ∀ r, Kept t (Q r)) :
  Outline cfg t c P (ReadCommitted.external op) Q
  := by
  apply Contract.Triple.perform hP.stable
  · rintro d r d' ⟨hd, hP⟩ (hperform | ⟨-, e, fails, -⟩)
    · cases hperform
      obtain ⟨hholds, hQ⟩ := step d hd hP
      exact ⟨⟨hholds, fun t' hne => rely_exec hne op d⟩, _, rfl, hholds, hQ⟩
    · cases fails
  · intro r
    rintro d d' ⟨a, hr, hd, hQ'⟩ ⟨holds, rely⟩
    exact ⟨a, hr, holds hd, hQ a d d' rely hQ'⟩

/-- The rule of a transaction: it is committed. -/
theorem unitOfWork {B : α → AlertData → Prop} (body : Outline cfg t c P p B)
    (commit : ∀ a, Outline cfg t c (B a) (ReadCommitted.query .commit) fun _ => Q a)
    (hQ : ∀ a, Kept t (Q a)) :
  Outline cfg t c P (ReadCommitted.unitOfWork p) Q
  := by
  apply Contract.Triple.bind (Contract.Triple.attempt body)
  · intro r
    constructor
    rintro d ⟨r', ⟨⟩, a, rfl, hd, hB⟩
    have ends : Outline cfg t c (B a) (endTransaction (.ok a)) Q := by
      apply bind (commit a)
      intro _
      exact pure (hQ a) fun _ h => h
    exact ends.safe d ⟨hd, hB⟩
  · rintro e d ⟨r', ⟨⟩, -⟩

theorem handle {f : NotifyError → Tx Op.Reply α} (h : Outline cfg t c P p Q)
    (hQ : ∀ a, Kept t (Q a)) :
  Outline cfg t c P (p.handle f) Q
  := by
  apply Contract.Triple.handle h
  · intro e
    constructor
    rintro d ⟨a, ⟨⟩, -⟩
  · rintro a d d' ⟨a', hr, hd, hQ'⟩ ⟨holds, rely⟩
    exact ⟨a', hr, holds hd, hQ a' d d' rely hQ'⟩
  · exact fun _ _ h => h

end Outline

/-! ### The operations -/

/-- An operation that has nothing to do with the notifications, except that a guard may go away. -/
theorem Exact.of_world {d : AlertData} (h : Exact cfg d) {w : World}
    (observed : w.observed = d.world.observed) (owed : w.owed = d.world.owed)
    (guards : w.store.guards ⊆ d.world.store.guards) :
  Exact cfg ⟨d.db, w⟩
  := by
  constructor
  · intro used hused
    rw [observed] at hused
    rw [owed]
    exact h.seen used hused
  · intro guard hguard
    rw [owed]
    exact h.guarded guard (guards hguard)
  · intro userId threshold present
    rw [observed]
    exact h.rows userId threshold present

/-- The session has seen the use, and owes the notifications if it crosses a threshold. -/
structure Seen (cfg : Settings) (t : ℕ) (used : ℤ) (d : AlertData) : Prop where
  idle : d.db.Idle t
  observed : used ∈ d.world.observed
  owed : (d.world.owed t = some (used, false) ∧
      ∃ threshold ∈ quotaThresholds cfg, Crosses cfg used threshold) ∨
    (d.world.owed t = none ∧ ∀ threshold ∈ quotaThresholds cfg, ¬Crosses cfg used threshold)

theorem Seen.kept (used : ℤ) : Kept t (Seen cfg t used) := by
  intro d d' rely h
  constructor
  · exact rely.frame.idle h.idle
  · exact rely.observed h.observed
  · rw [rely.owed]
    exact h.owed

/-- What others owe is not touched when a session does something about what it owes. -/
theorem owed_update {w : World} {value : Option (ℤ × Bool)} {t' : ℕ} {owed : ℤ × Bool}
    (h : w.owed t' = some owed) (hne : t' ≠ t) :
  Function.update w.owed t value t' = some owed
  := (Function.update_of_ne hne _ _).trans h

theorem Exact.observe {d : AlertData} (h : Exact cfg d) (rest : d.db.Idle t ∧ d.world.owed t = none)
    (used : ℤ) :
  Exact cfg ⟨d.db, d.world.observe cfg t used⟩ ∧ Seen cfg t used ⟨d.db, d.world.observe cfg t used⟩
  := by
  have other {t' : ℕ} {owed : ℤ × Bool} (howed : d.world.owed t' = some owed) :
      (d.world.observe cfg t used).owed t' = some owed := by
    unfold World.observe
    dsimp only
    split
    · apply owed_update howed
      rintro rfl
      cases rest.2.symm.trans howed
    · exact howed
  have own : ((d.world.observe cfg t used).owed t = some (used, false) ∧
        ∃ threshold ∈ quotaThresholds cfg, Crosses cfg used threshold) ∨
      ((d.world.observe cfg t used).owed t = none ∧
        ∀ threshold ∈ quotaThresholds cfg, ¬Crosses cfg used threshold) := by
    unfold World.observe
    dsimp only
    split
    next crosses =>
      left
      exact ⟨Function.update_self _ _ _, crosses⟩
    next none =>
      right
      exact ⟨rest.2, fun threshold hmem crosses => none ⟨threshold, hmem, crosses⟩⟩
  refine ⟨?_, rest.1, List.mem_cons_self, own⟩
  constructor
  · intro used' hused threshold hmem crosses
    obtain rfl | old := List.mem_cons.mp hused
    · right
      obtain ⟨howed, -⟩ | ⟨-, none⟩ := own
      · exact ⟨t, _, howed, crosses⟩
      · exact absurd crosses (none threshold hmem)
    · obtain delivered | ⟨t', owed, howed, crosses⟩ := h.seen used' old threshold hmem crosses
      · exact Or.inl delivered
      · exact Or.inr ⟨t', owed, other howed, crosses⟩
  · intro guard hguard threshold hmem le
    obtain delivered | ⟨t', used', howed, crosses⟩ := h.guarded guard hguard threshold hmem le
    · exact Or.inl delivered
    · exact Or.inr ⟨t', used', other howed, crosses⟩
  · intro userId threshold present
    obtain ⟨used', hused, crosses⟩ := h.rows userId threshold present
    exact ⟨used', List.mem_cons_of_mem _ hused, crosses⟩

/-- The session has set the guard, and is to deliver the notifications. -/
structure Guarding (t : ℕ) (used : ℤ) (d : AlertData) : Prop where
  idle : d.db.Idle t
  observed : used ∈ d.world.observed
  owed : d.world.owed t = some (used, true)

/-- The guard is set: from now on there is a session for it. -/
theorem Exact.set {d : AlertData} (h : Exact cfg d) {used : ℤ}
    (owed : d.world.owed t = some (used, false)) {store : Store}
    (guards : store.guards = crossed (quotaThresholds cfg) used cfg.limit :: d.world.store.guards) :
  Exact cfg ⟨d.db, { d.world with
    store, owed := Function.update d.world.owed t (some (used, true)) }⟩
  := by
  have own : Function.update d.world.owed t (some (used, true)) t = some (used, true) :=
    Function.update_self _ _ _
  constructor
  · intro used' hused threshold hmem crosses
    obtain delivered | ⟨t', owed', howed, crosses⟩ := h.seen used' hused threshold hmem crosses
    · exact Or.inl delivered
    · right
      by_cases same : t' = t
      · subst same
        cases owed.symm.trans howed
        exact ⟨t', _, own, crosses⟩
      · exact ⟨t', owed', owed_update howed same, crosses⟩
  · intro guard hguard threshold hmem le
    rw [guards] at hguard
    obtain rfl | old := List.mem_cons.mp hguard
    · exact Or.inr ⟨t, used, own, (le_crossed_iff hmem).mp le⟩
    · obtain delivered | ⟨t', used', howed, crosses⟩ := h.guarded guard old threshold hmem le
      · exact Or.inl delivered
      · have other : t' ≠ t := by
          rintro rfl
          cases owed.symm.trans howed
        exact Or.inr ⟨t', used', owed_update howed other, crosses⟩
  · exact h.rows

/-- The guard has been there: whoever has set it sees to the notifications. -/
theorem Exact.unset {d : AlertData} (h : Exact cfg d) {used : ℤ}
    (owed : d.world.owed t = some (used, false))
    (guarded : crossed (quotaThresholds cfg) used cfg.limit ∈ d.world.store.guards) :
  Exact cfg ⟨d.db, { d.world with owed := Function.update d.world.owed t none }⟩
  := by
  have held : ∀ guard ∈ d.world.store.guards, ∀ threshold ∈ quotaThresholds cfg,
      threshold ≤ guard → Delivered cfg d threshold ∨ ∃ t' used',
        Function.update d.world.owed t none t' = some (used', true) ∧
          Crosses cfg used' threshold := by
    intro guard hguard threshold hmem le
    obtain delivered | ⟨t', used', howed, crosses⟩ := h.guarded guard hguard threshold hmem le
    · exact Or.inl delivered
    · have other : t' ≠ t := by
        rintro rfl
        cases owed.symm.trans howed
      exact Or.inr ⟨t', used', owed_update howed other, crosses⟩
  constructor
  · intro used' hused threshold hmem crosses
    obtain delivered | ⟨t', owed', howed, crosses⟩ := h.seen used' hused threshold hmem crosses
    · exact Or.inl delivered
    · by_cases same : t' = t
      · subst same
        cases owed.symm.trans howed
        obtain delivered | ⟨t'', used'', howed, crosses⟩ :=
          held _ guarded threshold hmem ((le_crossed_iff hmem).mpr crosses)
        · exact Or.inl delivered
        · exact Or.inr ⟨t'', _, howed, crosses⟩
      · exact Or.inr ⟨t', owed', owed_update howed same, crosses⟩
  · exact held
  · exact h.rows

theorem exec_setGuard_of_mem {w : World} {guard : ℕ} (h : guard ∈ w.store.guards) :
  w.exec cfg t c (.setGuard guard) = (false, { w with owed := Function.update w.owed t none })
  := by
  have exec : w.store.exec (.setGuard guard) = (false, w.store) := if_pos h
  unfold World.exec
  rw [exec]
  rfl

theorem exec_setGuard_of_not_mem {w : World} {guard : ℕ} (h : guard ∉ w.store.guards) :
  w.exec cfg t c (.setGuard guard) = (true, { w with
    store := { w.store with guards := guard :: w.store.guards },
    owed := Function.update w.owed t ((w.owed t).map fun owed => (owed.1, true)) })
  := by
  have exec : w.store.exec (.setGuard guard) =
      (true, { w.store with guards := guard :: w.store.guards }) := if_neg h
  unfold World.exec
  rw [exec]
  rfl

theorem setGuard_outline {used : ℤ} {threshold : ℕ} (hmem : threshold ∈ quotaThresholds cfg)
    (crosses : Crosses cfg used threshold) :
  Outline cfg t c (Seen cfg t used)
    (external (.setGuard (crossed (quotaThresholds cfg) used cfg.limit)))
    fun set d => if set then Guarding t used d else d.db.Idle t ∧ d.world.owed t = none
  := by
  apply Outline.external (Seen.kept used)
  · intro d hd h
    obtain ⟨owed, -⟩ | ⟨-, none⟩ := h.owed
    · by_cases guarded : crossed (quotaThresholds cfg) used cfg.limit ∈ d.world.store.guards
      · rw [exec_setGuard_of_mem guarded]
        exact ⟨hd.unset owed guarded, h.idle, Function.update_self _ _ _⟩
      · rw [exec_setGuard_of_not_mem guarded, owed]
        exact ⟨hd.set owed rfl, h.idle, h.observed, Function.update_self _ _ _⟩
    · exact absurd crosses (none threshold hmem)
  · intro set d d' rely h
    cases set with
    | true => exact ⟨rely.frame.idle h.idle, rely.observed h.observed, rely.owed.trans h.owed⟩
    | false => exact ⟨rely.frame.idle h.1, rely.owed.trans h.2⟩

/-! ### The notifications -/

/-- How far a session has come with the notifications that it owes. -/
structure Delivering (cfg : Settings) (t : ℕ) (used : ℤ) (done : Key → Prop) (d : AlertData) :
    Prop where
  observed : used ∈ d.world.observed
  owed : d.world.owed t = some (used, true)
  pending : ∀ key v, d.db.pending key = some (t, v) → v.isSome ∧
    ∃ userId threshold, key = rowKey cfg userId threshold ∧ Crosses cfg used threshold
  done : ∀ key, done key → (d.db.committed key).isSome ∨ ∃ v, d.db.pending key = some (t, v)

namespace Delivering

variable {used : ℤ} {done : Key → Prop} {d : AlertData}

theorem of_guarding (h : Guarding t used d) : Delivering cfg t used (fun _ => False) d where
  observed := h.observed
  owed := h.owed
  pending key v hp := absurd hp (h.idle key v)
  done _ := False.elim

theorem mono (h : Delivering cfg t used done d) {done' : Key → Prop}
    (sub : ∀ key, done' key → done key) :
  Delivering cfg t used done' d
  where
  observed := h.observed
  owed := h.owed
  pending := h.pending
  done key hkey := h.done key (sub key hkey)

theorem kept : Kept t (Delivering cfg t used done) := by
  intro d d' rely h
  constructor
  · exact rely.observed h.observed
  · exact rely.owed.trans h.owed
  · exact fun key v hp => h.pending key v ((rely.frame.pending key v).mp hp)
  · intro key hkey
    obtain present | ⟨v, hp⟩ := h.done key hkey
    · exact Or.inl (rely.committed key present)
    · exact Or.inr ⟨v, (rely.frame.pending key v).mpr hp⟩

/-- A row that the session sees is there, or is its own. -/
theorem seen (h : Delivering cfg t used done d) {key : Key} (view : (d.db.view t key).isSome) :
  Delivering cfg t used (fun other => other = key ∨ done other) d
  where
  observed := h.observed
  owed := h.owed
  pending := h.pending
  done other hother := by
    obtain rfl | hother := hother
    · by_cases own : ∃ v, d.db.pending other = some (t, v)
      · exact Or.inr own
      · left
        rw [← Db.view_of_not_pending fun v hp => own ⟨v, hp⟩]
        exact view
    · exact h.done other hother

theorem write (h : Delivering cfg t used done d) {userId : UserId} {threshold : ℕ}
    (crosses : Crosses cfg used threshold) (row : Notification) :
  Delivering cfg t used (fun other => other = rowKey cfg userId threshold ∨ done other)
    ⟨d.db.write t (rowKey cfg userId threshold) (some row), d.world⟩
  where
  observed := h.observed
  owed := h.owed
  pending key v hp := by
    by_cases own : key = rowKey cfg userId threshold
    · subst own
      cases Db.pending_write_self.symm.trans hp
      exact ⟨rfl, userId, threshold, rfl, crosses⟩
    · rw [Db.pending_write_of_ne own] at hp
      exact h.pending key v hp
  done other hother := by
    by_cases own : other = rowKey cfg userId threshold
    · subst own
      exact Or.inr ⟨_, Db.pending_write_self⟩
    · obtain same | hother := hother
      · exact absurd same own
      · rw [Db.pending_write_of_ne own]
        exact h.done other hother

end Delivering

theorem Exact.of_db {d : AlertData} (h : Exact cfg d) {db : Db ℕ Key Notification}
    (committed : db.committed = d.db.committed) :
  Exact cfg ⟨db, d.world⟩
  := by
  have delivered {threshold : ℕ} (h : Delivered cfg d threshold) :
      Delivered cfg ⟨db, d.world⟩ threshold := by
    intro userId hmem
    rw [committed]
    exact h userId hmem
  constructor
  · intro used hused threshold hmem crosses
    exact (h.seen used hused threshold hmem crosses).imp_left delivered
  · intro guard hguard threshold hmem le
    exact (h.guarded guard hguard threshold hmem le).imp_left delivered
  · intro userId threshold present
    rw [committed] at present
    exact h.rows userId threshold present

/-- One notification for one recipient. -/
theorem deliver_outline {used : ℤ} {threshold : ℕ} (crosses : Crosses cfg used threshold)
    (title body : String) (info : Platform.Notifications.Meta) (recipients : List UserId) :
  ∀ done : Key → Prop,
    Outline cfg t c (Delivering cfg t used done)
      (deliver cfg.notificationEmailEnabled .quotaThreshold title body info
        (.quotaThreshold cfg.name cfg.periodStart threshold) recipients)
      fun _ => Delivering cfg t used fun key =>
        (∃ userId ∈ recipients, key = rowKey cfg userId threshold) ∨ done key
  := by
  induction recipients with
  | nil =>
    intro done
    apply Outline.pure Delivering.kept
    intro d h
    apply h.mono
    rintro key (⟨userId, hmem, -⟩ | hkey)
    · cases hmem
    · exact hkey
  | cons userId recipients ih =>
    intro done
    have rest : Outline cfg t c
        (Delivering cfg t used fun key => key = rowKey cfg userId threshold ∨ done key)
        (deliver cfg.notificationEmailEnabled .quotaThreshold title body info
          (.quotaThreshold cfg.name cfg.periodStart threshold) recipients)
        fun _ => Delivering cfg t used fun key =>
          (∃ other ∈ userId :: recipients, key = rowKey cfg other threshold) ∨ done key := by
      apply (ih _).conseq fun _ h => h
      intro _ d h
      apply h.mono
      rintro key (⟨other, hmem, rfl⟩ | hkey)
      · obtain rfl | hmem := List.mem_cons.mp hmem
        · exact Or.inr (Or.inl rfl)
        · exact Or.inl ⟨other, hmem, rfl⟩
      · exact Or.inr (Or.inr hkey)
    apply Outline.bind (Q := fun found d => if found.isSome
      then Delivering cfg t used (fun key => key = rowKey cfg userId threshold ∨ done key) d
      else Delivering cfg t used done d)
    · apply Outline.query Delivering.kept
      · intro d found db hd h hexec
        obtain ⟨rfl, rfl⟩ := Db.exec_select hexec
        refine ⟨hd, fun _ h => h, ?_⟩
        split
        next view => exact h.seen view
        next => exact h
      · intro found
        split
        all_goals exact Delivering.kept
    · intro found
      split
      next => exact rest
      next =>
        apply Outline.bind
          (Q := fun _ => Delivering cfg t used fun key => key = rowKey cfg userId threshold ∨ done key)
        · apply Outline.query Delivering.kept
          · intro d inserted db hd h hexec
            obtain ⟨rfl, -, -, rfl⟩ | ⟨rfl, rfl, -, row, view⟩ := Db.exec_insert hexec
            · exact ⟨hd.of_db rfl, fun _ h => h, h.write crosses _⟩
            · exact ⟨hd, fun _ h => h, h.seen (Option.isSome_of_eq_some view)⟩
          · exact fun _ => Delivering.kept
        · intro created
          apply Outline.bind rest
          intro pending
          apply Outline.pure Delivering.kept
          exact fun _ h => h

/-- The notifications of all thresholds that are crossed. -/
theorem deliverThresholds_outline (positive : 0 < cfg.limit) {used : ℤ} (thresholds : List ℕ)
    (sub : thresholds ⊆ quotaThresholds cfg) :
  ∀ done : Key → Prop,
    Outline cfg t c (Delivering cfg t used done)
      (deliverThresholds cfg (min used cfg.limit) cfg.limit (min used cfg.limit * 100 / cfg.limit)
        thresholds)
      fun _ => Delivering cfg t used fun key =>
        (∃ threshold ∈ thresholds, Crosses cfg used threshold ∧
          ∃ userId ∈ cfg.recipients, key = rowKey cfg userId threshold) ∨ done key
  := by
  induction thresholds with
  | nil =>
    intro done
    apply Outline.pure Delivering.kept
    intro d h
    apply h.mono
    rintro key (⟨threshold, hmem, -⟩ | hkey)
    · cases hmem
    · exact hkey
  | cons threshold thresholds ih =>
    obtain ⟨hmem, sub⟩ := List.cons_subset.mp sub
    intro done
    unfold deliverThresholds
    split
    next below =>
      have uncrossed := (percent_lt_iff positive hmem).mp below
      apply (ih sub done).conseq fun _ h => h
      intro _ d h
      apply h.mono
      rintro key (⟨other, hother, crosses, recipient⟩ | hkey)
      · obtain rfl | hother := List.mem_cons.mp hother
        · exact absurd crosses uncrossed
        · exact Or.inl ⟨other, hother, crosses, recipient⟩
      · exact Or.inr hkey
    next reached =>
      have crosses : Crosses cfg used threshold :=
        not_not.mp fun uncrossed => reached ((percent_lt_iff positive hmem).mpr uncrossed)
      apply Outline.bind (deliver_outline crosses _ _ _ cfg.recipients done)
      intro pending
      apply Outline.bind (ih sub _)
      intro others
      apply Outline.pure Delivering.kept
      intro d h
      apply h.mono
      rintro key (⟨other, hother, crosses, userId, recipient, rfl⟩ | hkey)
      · obtain rfl | hother := List.mem_cons.mp hother
        · exact Or.inr (Or.inl ⟨userId, recipient, rfl⟩)
        · exact Or.inl ⟨other, hother, crosses, userId, recipient, rfl⟩
      · exact Or.inr (Or.inr hkey)

/-- The session has nothing to see to. -/
def Rest (t : ℕ) (d : AlertData) : Prop := d.db.Idle t ∧ d.world.owed t = none

theorem Rest.kept : Kept t (Rest t) :=
  fun _ _ rely h => ⟨rely.frame.idle h.1, rely.owed.trans h.2⟩

/-- The notifications that a session owes. -/
def Due (cfg : Settings) (used : ℤ) (key : Key) : Prop :=
  ∃ threshold ∈ quotaThresholds cfg, Crosses cfg used threshold ∧
    ∃ userId ∈ cfg.recipients, key = rowKey cfg userId threshold

theorem rowKey_inj {userId userId' : UserId} {threshold threshold' : ℕ}
    (h : rowKey cfg userId threshold = rowKey cfg userId' threshold') :
  threshold = threshold'
  := (DedupeKey.quotaThreshold.inj (Key.mk.inj h).2).2.2

/-- The commit of all that is due: the session owes nothing any more. -/
theorem Delivering.commit {used : ℤ} {d : AlertData} (h : Delivering cfg t used (Due cfg used) d)
    (hd : Exact cfg d) :
  Exact cfg ⟨d.db.commit t, { d.world with owed := Function.update d.world.owed t none }⟩ ∧
    ∀ key, (d.db.committed key).isSome → ((d.db.commit t).committed key).isSome
  := by
  have committed : ∀ key, (d.db.committed key).isSome ∨ (∃ v, d.db.pending key = some (t, v)) →
      (d.db.view t key).isSome := by
    intro key present
    by_cases own : ∃ v, d.db.pending key = some (t, v)
    · obtain ⟨v, hp⟩ := own
      rw [Db.view_of_pending hp]
      exact (h.pending key v hp).1
    · rw [Db.view_of_not_pending fun v hp => own ⟨v, hp⟩]
      exact present.resolve_right own
  have delivered : ∀ threshold ∈ quotaThresholds cfg, Delivered cfg d threshold ∨
      Crosses cfg used threshold → Delivered cfg ⟨d.db.commit t, { d.world with
        owed := Function.update d.world.owed t none }⟩ threshold := by
    intro threshold hmem hcases userId recipient
    apply committed
    obtain delivered | crosses := hcases
    · exact Or.inl (delivered userId recipient)
    · exact h.done _ ⟨threshold, hmem, crosses, userId, recipient, rfl⟩
  refine ⟨?_, fun key present => committed key (Or.inl present)⟩
  constructor
  · intro used' hused threshold hmem crosses
    obtain old | ⟨t', owed, howed, crosses⟩ := hd.seen used' hused threshold hmem crosses
    · exact Or.inl (delivered threshold hmem (Or.inl old))
    · by_cases same : t' = t
      · subst same
        cases h.owed.symm.trans howed
        exact Or.inl (delivered threshold hmem (Or.inr crosses))
      · exact Or.inr ⟨t', owed, owed_update howed same, crosses⟩
  · intro guard hguard threshold hmem le
    obtain old | ⟨t', used', howed, crosses⟩ := hd.guarded guard hguard threshold hmem le
    · exact Or.inl (delivered threshold hmem (Or.inl old))
    · by_cases same : t' = t
      · subst same
        cases h.owed.symm.trans howed
        exact Or.inl (delivered threshold hmem (Or.inr crosses))
      · exact Or.inr ⟨t', used', owed_update howed same, crosses⟩
  · intro userId threshold present
    by_cases own : ∃ v, d.db.pending (rowKey cfg userId threshold) = some (t, v)
    · obtain ⟨v, hp⟩ := own
      obtain ⟨-, userId', threshold', same, crosses⟩ := h.pending _ v hp
      rw [rowKey_inj same]
      exact ⟨used, h.observed, crosses⟩
    · have view : (d.db.view t (rowKey cfg userId threshold)).isSome := present
      rw [Db.view_of_not_pending fun v hp => own ⟨v, hp⟩] at view
      exact hd.rows userId threshold view

theorem notify_outline (positive : 0 < cfg.limit) (used : ℤ) :
  Outline cfg t c (Guarding t used) (carryOut cfg (.notify (min used cfg.limit) cfg.limit))
    fun r d => ∃ reply, r = .ok reply ∧ Rest t d
  := by
  have commit : Outline cfg t c (Delivering cfg t used (Due cfg used)) (query .commit)
      fun _ => Rest t := by
    apply Outline.query Delivering.kept
    · intro d r db hd h hexec
      cases hexec
      obtain ⟨hholds, committed⟩ := h.commit hd
      exact ⟨hholds, committed, Db.idle_commit _, Function.update_self _ _ _⟩
    · exact fun _ => Rest.kept
  have body : Outline cfg t c (Guarding t used)
      (deliverThresholds cfg (min used cfg.limit) cfg.limit (min used cfg.limit * 100 / cfg.limit)
        (quotaThresholds cfg)) fun _ => Delivering cfg t used (Due cfg used) := by
    apply (deliverThresholds_outline positive _ (List.Subset.refl _) fun _ => False).conseq
    · exact fun d => Delivering.of_guarding
    · intro _ d h
      exact h.mono fun key => Or.inl
  have notify : Outline cfg t c (Guarding t used)
      (notifyQuotaThreshold cfg (min used cfg.limit) cfg.limit) fun _ => Rest t := by
    unfold notifyQuotaThreshold
    rw [if_neg positive.ne']
    apply Outline.handle _ fun _ => Rest.kept
    exact Outline.unitOfWork body (fun _ => commit) fun _ => Rest.kept
  apply Outline.bind notify
  intro _
  apply Outline.pure Rest.kept
  exact fun d h => ⟨(), rfl, h⟩

/-- The rule of an operation of `QuotaService`. -/
theorem Outline.interpret {op : Op} {Q : op.Reply → AlertData → Prop}
    {next : op.Reply → Prog α} {Q' : Except QuotaExceededError α → AlertData → Prop}
    (hop : Outline cfg t c P (carryOut cfg op) fun r d => ∃ reply, r = .ok reply ∧ Q reply d)
    (hnext : ∀ reply, Outline cfg t c (Q reply) ((next reply).interpret (carryOut cfg)) Q') :
  Outline cfg t c P ((perform op >>= next).interpret (carryOut cfg)) Q'
  := by
  apply Contract.Triple.interpret (Q := fun reply d => Exact cfg d ∧ Q reply d)
  · apply Contract.Triple.conseq hop fun _ h => h
    rintro r d ⟨a, rfl, hd, reply, rfl, hQ⟩
    exact ⟨reply, rfl, hd, hQ⟩
  · exact hnext

theorem Outline.interpret_perform {op : Op} {Q : op.Reply → AlertData → Prop}
    (hop : Outline cfg t c P (carryOut cfg op) fun r d => ∃ reply, r = .ok reply ∧ Q reply d)
    (hQ : ∀ reply, Kept t (Q reply)) :
  Outline cfg t c P ((perform op).interpret (carryOut cfg))
    fun r d => ∃ reply, r = .ok reply ∧ Q reply d
  := by
  have carried := Contract.Triple.interpret_perform
    (Q := fun reply d => Exact cfg d ∧ Q reply d)
    (Contract.Triple.conseq hop (fun _ h => h) fun r d h => by
      obtain ⟨a, rfl, hd, reply, rfl, hQ⟩ := h
      exact ⟨reply, rfl, hd, hQ⟩)
    fun reply => (hQ reply).stable
  apply Contract.Triple.conseq carried fun _ h => h
  rintro r d ⟨reply, rfl, hd, h⟩
  exact ⟨_, rfl, hd, reply, rfl, h⟩

theorem Outline.interpret_bind {p : Prog α} {f : α → Prog β} {Q : α → AlertData → Prop}
    {Q' : Except QuotaExceededError β → AlertData → Prop}
    (hp : Outline cfg t c P (p.interpret (carryOut cfg)) fun r d => ∃ a, r = .ok a ∧ Q a d)
    (hf : ∀ a, Outline cfg t c (Q a) ((f a).interpret (carryOut cfg)) Q') :
  Outline cfg t c P ((p >>= f).interpret (carryOut cfg)) Q'
  := by
  apply Contract.Triple.interpret_bind (Q := fun a d => Exact cfg d ∧ Q a d)
  · apply Contract.Triple.conseq hp fun _ h => h
    rintro r d ⟨r', rfl, hd, a, rfl, hQ⟩
    exact ⟨a, rfl, hd, hQ⟩
  · exact hf

/-- The rule of an operation outside the database, as it is carried out. -/
theorem Outline.carry {op : Op} {Q : op.Reply → AlertData → Prop}
    (h : Outline cfg t c P (ReadCommitted.external op) Q) (hQ : ∀ reply, Kept t (Q reply))
    (carry : carryOut cfg op = (do
      let reply ← ReadCommitted.external op
      return .ok reply)) :
  Outline cfg t c P (carryOut cfg op) fun r d => ∃ reply, r = .ok reply ∧ Q reply d
  := by
  rw [carry]
  apply Outline.bind h
  intro reply
  exact Outline.pure (hQ reply) fun d h => ⟨reply, rfl, h⟩

/-- An operation on the counter alone, which is not that of a reservation. -/
structure Quiet (cfg : Settings) (c : Call) (op : Op) : Prop where
  carry : carryOut cfg op = (do
    let reply ← external op
    return .ok reply)
  exec : ∀ (t : ℕ) (w : World), (w.exec cfg t c op).2.observed = w.observed ∧
    (w.exec cfg t c op).2.owed = w.owed ∧ (w.exec cfg t c op).2.store.guards = w.store.guards

theorem quiet_expire (seconds : ℕ) (nx : Bool) : Quiet cfg c (.expire seconds nx) :=
  ⟨rfl, fun _ _ => ⟨rfl, rfl, rfl⟩⟩

theorem quiet_decrby (n : ℤ) : Quiet cfg c (.decrby n) := ⟨rfl, fun _ _ => ⟨rfl, rfl, rfl⟩⟩

theorem quiet_incrby (settles : ∀ amount, c ≠ .reserve amount) (n : ℤ) :
  Quiet cfg c (.incrby n)
  := by
  cases c with
  | reserve amount => exact absurd rfl (settles amount)
  | commit r actual => exact ⟨rfl, fun _ _ => ⟨rfl, rfl, rfl⟩⟩
  | release r => exact ⟨rfl, fun _ _ => ⟨rfl, rfl, rfl⟩⟩

/-- Such an operation keeps an assertion about what is seen and owed. -/
theorem quiet_outline {op : Op} (quiet : Quiet cfg c op) (hP : Kept t P)
    (same : ∀ d w, w.observed = d.world.observed → w.owed = d.world.owed → P d → P ⟨d.db, w⟩) :
  Outline cfg t c P (carryOut cfg op) fun r d => ∃ reply, r = .ok reply ∧ P d
  := by
  apply Outline.carry _ (fun _ => hP) quiet.carry
  apply Outline.external hP
  · intro d hd h
    obtain ⟨observed, owed, guards⟩ := quiet.exec t d.world
    refine ⟨hd.of_world observed owed ?_, same d _ observed owed h⟩
    rw [guards]
    exact List.Subset.refl _
  · exact fun _ => hP

theorem Rest.of_world (d : AlertData) (w : World) (_ : w.observed = d.world.observed)
    (owed : w.owed = d.world.owed) (h : Rest t d) :
  Rest t ⟨d.db, w⟩
  := ⟨h.1, (congrFun owed t).trans h.2⟩

theorem Seen.of_world {used : ℤ} (d : AlertData) (w : World)
    (observed : w.observed = d.world.observed) (owed : w.owed = d.world.owed)
    (h : Seen cfg t used d) :
  Seen cfg t used ⟨d.db, w⟩
  := by
  constructor
  · exact h.idle
  · rw [observed]
    exact h.observed
  · rw [owed]
    exact h.owed

/-! ### The calls -/

theorem maybeNotify_outline (positive : 0 < cfg.limit) (metered : cfg.metering ≠ .gauge) (used : ℤ) :
  Outline cfg t c (Seen cfg t used)
    ((maybeNotify cfg.resource used cfg.limit).interpret (carryOut cfg))
    fun r d => ∃ u, r = .ok u ∧ Rest t d
  := by
  have none : (∀ threshold ∈ quotaThresholds cfg, ¬Crosses cfg used threshold) →
      Outline cfg t c (Seen cfg t used) ((pure () : Prog Unit).interpret (carryOut cfg))
        fun r d => ∃ u, r = .ok u ∧ Rest t d := by
    intro uncrossed
    apply Outline.pure (Seen.kept used)
    intro d h
    obtain ⟨-, threshold, hmem, crosses⟩ | ⟨owed, -⟩ := h.owed
    · exact absurd crosses (uncrossed threshold hmem)
    · exact ⟨(), rfl, h.idle, owed⟩
  unfold maybeNotify
  split
  next empty =>
    have empty : quotaThresholds cfg = [] := empty
    apply none
    rw [empty]
    nofun
  next first others thresholds =>
    have thresholds : quotaThresholds cfg = first :: others := thresholds
    split
    next below =>
      apply none
      intro threshold hmem crosses
      have le : (first : ℤ) ≤ threshold := by
        exact_mod_cast quotaThresholds_first thresholds threshold hmem
      have scaled := Int.mul_le_mul_of_nonneg_right le (Int.natCast_nonneg cfg.limit)
      have below := (below.resolve_left metered).resolve_left positive.ne'
      unfold Crosses at crosses
      omega
    next reached =>
      have crosses : Crosses cfg used first := by
        unfold Crosses
        exact not_lt.mp fun below => reached (Or.inr (Or.inr below))
      have hmem : first ∈ quotaThresholds cfg := by
        rw [thresholds]
        exact List.mem_cons_self
      apply Outline.interpret
        (Q := fun set d => if set then Guarding t used d else Rest t d)
      · apply Outline.carry (setGuard_outline hmem crosses)
        · intro set
          cases set with
          | true => exact fun d d' rely h =>
              ⟨rely.frame.idle h.idle, rely.observed h.observed, rely.owed.trans h.owed⟩
          | false => exact Rest.kept
        · rfl
      · intro set
        cases set with
        | true =>
          exact Outline.interpret_perform (notify_outline positive used) fun _ => Rest.kept
        | false => exact Outline.pure Rest.kept fun d h => ⟨(), rfl, h⟩

/-- What the reservation sees of the use. -/
theorem observe_outline {op : Op} {amount : ℕ} (seen : op.Reply → ℤ)
    (carry : carryOut cfg op = (do
      let reply ← external op
      return .ok reply))
    (exec : ∀ w : World, (w.exec cfg t (.reserve amount) op).2 =
      { w with store := (w.store.exec op).2 }.observe cfg t
        (seen (w.exec cfg t (.reserve amount) op).1))
    (guards : ∀ s : Store, (s.exec op).2.guards = s.guards) :
  Outline cfg t (.reserve amount) (Rest t) (carryOut cfg op)
    fun r d => ∃ reply, r = .ok reply ∧ Seen cfg t (seen reply) d
  := by
  apply Outline.carry _ (fun reply => Seen.kept (seen reply)) carry
  apply Outline.external Rest.kept
  · intro d hd rest
    rw [exec]
    have same : (d.world.store.exec op).2.guards ⊆ d.world.store.guards := by
      rw [guards]
      exact List.Subset.refl _
    have moved := hd.of_world (w := { d.world with store := (d.world.store.exec op).2 }) rfl rfl same
    exact moved.observe rest _
  · exact fun reply => Seen.kept (seen reply)

theorem reserve_outline (positive : 0 < cfg.limit) (metered : cfg.metering ≠ .gauge) (amount : ℕ) :
  Outline cfg t (.reserve amount) (Rest t)
    ((checkAndReserve cfg.resource amount).interpret (carryOut cfg)) fun _ => Rest t
  := by
  have ended (result : Except QuotaExceededError (Option QuotaReservation)) :
      Outline cfg t (.reserve amount) (Rest t) (.pure result) fun _ => Rest t :=
    Outline.pure Rest.kept fun _ h => h
  by_cases database : cfg.resource.metering = .database
  · have branch : checkAndReserve cfg.resource amount = (do
        let used ← Quota.perform .dbUsed
        maybeNotify cfg.resource (used + amount) cfg.limit
        if cfg.limit < used + amount then
          .raise (exceeded cfg.resource cfg.limit used false)
        else
          pure none) := if_pos database
    rw [branch]
    apply Outline.interpret
      (observe_outline (fun used : ℕ => (used + amount : ℤ)) rfl (fun _ => rfl) fun _ => rfl)
    intro used
    apply Outline.interpret_bind (Q := fun _ => Rest t) (maybeNotify_outline positive metered _)
    intro _
    split
    all_goals exact ended _
  · have branch : checkAndReserve cfg.resource amount = (do
        let usedAfter ← Quota.perform (.incrby amount)
        Quota.perform (.expire cfg.resource.ttlSeconds false)
        maybeNotify cfg.resource usedAfter cfg.limit
        if cfg.limit < usedAfter then
          let _ ← Quota.perform (.decrby amount)
          .raise (exceeded cfg.resource cfg.limit (usedAfter - amount)
            (cfg.resource.metering ≠ .gauge))
        else
          pure (some { amount, ttlSeconds := cfg.resource.ttlSeconds })) := if_neg database
    rw [branch]
    apply Outline.interpret (observe_outline id rfl (fun _ => rfl) fun _ => rfl)
    intro usedAfter
    apply Outline.interpret
      (quiet_outline (quiet_expire _ _) (Seen.kept usedAfter) Seen.of_world)
    intro _
    apply Outline.interpret_bind (Q := fun _ => Rest t) (maybeNotify_outline positive metered _)
    intro _
    split
    · apply Outline.interpret (quiet_outline (quiet_decrby _) Rest.kept Rest.of_world)
      intro _
      exact ended _
    · exact ended _

/-- A call that settles a reservation. -/
theorem settle_outline {p : Prog α} (hp : p.Uses (Quiet cfg c)) :
  Outline cfg t c (Rest t) (p.interpret (carryOut cfg)) fun _ => Rest t
  := by
  have kept : ((discipline cfg).contract (service cfg) t c).Triple (fun d => Exact cfg d ∧ Rest t d)
      (p.interpret (carryOut cfg)) fun r d => (∃ r', r = .ok r') ∧ Exact cfg d ∧ Rest t d := by
    apply Contract.Triple.interpret_of_uses hp Rest.kept.stable
    intro op quiet
    apply Contract.Triple.conseq (quiet_outline quiet Rest.kept Rest.of_world) fun _ h => h
    rintro r d ⟨r', rfl, hd, reply, rfl, h⟩
    exact ⟨⟨_, rfl⟩, hd, h⟩
  apply Contract.Triple.conseq kept fun _ h => h
  rintro r d ⟨⟨r', rfl⟩, hd, h⟩
  exact ⟨r', rfl, hd, h⟩

theorem quiet_clamp (settles : ∀ amount, c ≠ .reserve amount) (value : ℤ) :
  (clamp value).Uses (Quiet cfg c)
  := by
  unfold clamp
  split
  · apply Program.Uses.bind' (Program.uses_perform (quiet_incrby settles _))
    intro _
    exact Program.uses_pure' ()
  · exact Program.uses_pure' ()

theorem quiet_commit (r : QuotaReservation) (actual : Option ℕ) :
  (Quota.commit r actual).Uses (Quiet cfg (.commit r actual))
  := by
  have settles : ∀ amount, Call.commit r actual ≠ .reserve amount := by
    rintro _ ⟨⟩
  unfold Quota.commit
  cases actual with
  | none => exact Program.uses_pure' ()
  | some actual =>
    dsimp only
    split
    · exact Program.uses_pure' ()
    · apply Program.Uses.bind' (Program.uses_perform (quiet_incrby settles _))
      intro adjusted
      apply Program.Uses.bind' (quiet_clamp settles adjusted)
      intro _
      exact Program.uses_perform (quiet_expire _ _)

theorem quiet_release (r : QuotaReservation) :
  (Quota.release r).Uses (Quiet cfg (.release r))
  := by
  have settles : ∀ amount, Call.release r ≠ .reserve amount := by
    rintro _ ⟨⟩
  apply Program.Uses.bind' (Program.uses_perform (quiet_decrby _))
  intro remaining
  apply Program.Uses.bind' (quiet_clamp settles remaining)
  intro _
  exact Program.uses_perform (quiet_expire _ _)

theorem lawful (positive : 0 < cfg.limit) (metered : cfg.metering ≠ .gauge) :
  (discipline cfg).Lawful (service cfg)
  := by
  constructor
  · intro t c
    have outline : Outline cfg t c (Rest t) ((c.prog cfg).interpret (carryOut cfg))
        fun _ => Rest t := by
      cases c with
      | reserve amount => exact reserve_outline positive metered amount
      | commit r actual =>
        exact settle_outline ((quiet_commit r actual).bind' fun _ => Program.uses_pure' none)
      | release r =>
        exact settle_outline ((quiet_release r).bind' fun _ => Program.uses_pure' none)
    apply Contract.Triple.conseq outline fun _ h => h
    rintro r d ⟨result, -, hd, rest⟩
    exact ⟨hd, rest⟩
  · rintro change d w hd ⟨⟩
    have same : (d.world.change change).observed = d.world.observed ∧
        (d.world.change change).owed = d.world.owed ∧
        (d.world.change change).store.guards ⊆ d.world.store.guards := by
      cases change with
      | expireGuard threshold => exact ⟨rfl, rfl, List.filter_subset_self _⟩
      | setCounter value => exact ⟨rfl, rfl, List.Subset.refl _⟩
      | setDbUsed used => exact ⟨rfl, rfl, List.Subset.refl _⟩
    obtain ⟨observed, owed, guards⟩ := same
    refine ⟨hd.of_world observed owed guards, fun t => ?_⟩
    constructor
    · rw [observed]
      exact List.Subset.refl _
    · exact fun _ h => h
    · exact Db.Frame.refl t d.db
    · rw [owed]

end Discipline

/-! ### The notifications of a period -/

/-- The period begins: there are no guards and no notifications yet. -/
def Begins (cfg : Settings) (d : AlertData) : Prop :=
  (∀ userId threshold, d.db.committed (rowKey cfg userId threshold) = none) ∧
    d.world.store.guards = [] ∧ d.world.observed = [] ∧ d.world.owed = fun _ => none

def alerts (cfg : Settings) := (service cfg).machine (Begins cfg)

theorem Begins.exact {cfg : Settings} {d : AlertData} (h : Begins cfg d) : Exact cfg d := by
  obtain ⟨rows, guards, observed, -⟩ := h
  constructor
  · intro used hused
    rw [observed] at hused
    cases hused
  · intro guard hguard
    rw [guards] at hguard
    cases hguard
  · intro userId threshold present
    rw [rows] at present
    cases present

/-- When no call is under way, a recipient has the notification of a threshold exactly when a call
of `check_and_reserve` has seen a use that crosses it.  There is at most one by the key. -/
theorem notification_exists_iff_crossed {cfg : Settings} (positive : 0 < cfg.limit)
    (metered : cfg.metering ≠ .gauge) {h s} (run : (alerts cfg).Run h s)
    (quiet : ∀ t x, s.sessions t = some x → x.program.outcome.isSome) {userId : UserId}
    (recipient : userId ∈ cfg.recipients) {threshold : ℕ}
    (configured : threshold ∈ quotaThresholds cfg) :
  (s.data.db.committed (rowKey cfg userId threshold)).isSome ↔
    ∃ used ∈ s.data.world.observed, Crosses cfg used threshold
  := by
  have sound : (discipline cfg).Sound (service cfg) s := by
    apply Server.Discipline.sound_of_run (lawful positive metered) _ run
    intro d begins idle
    refine ⟨begins.exact, fun t => ⟨idle t, ?_⟩⟩
    rw [begins.2.2.2]
  have rest (t : ℕ) : s.data.world.owed t = none := by
    cases hsession : s.sessions t with
    | none => exact (sound.rest t hsession).2
    | some x =>
      obtain ⟨r, hr⟩ := Option.isSome_iff_exists.mp (quiet t x hsession)
      exact (sound.ended hsession hr).2
  constructor
  · exact sound.holds.rows userId threshold
  · rintro ⟨used, hused, crosses⟩
    obtain delivered | ⟨t, owed, howed, -⟩ :=
      sound.holds.seen used hused threshold configured crosses
    · exact delivered userId recipient
    · cases (rest t).symm.trans howed

/-- `int`, of digits only. -/
def intOfDigits (s : String) : Option ℤ :=
  if s.toList.all Char.isDigit then
    some (s.toList.foldl (fun n c => 10 * n + (c.toNat - 48)) 0)
  else
    none

def monthly : Settings where
  name := "tokens_month"
  metering := .period
  limit := 10
  ttlSeconds := 60
  periodStart := "2026-01"
  int := intOfDigits
  notificationEmailEnabled := false
  recipients := [4]

/-- One reservation goes beyond both thresholds at once. -/
theorem notification_exists_iff_crossed_jump :
  ∃ h s, (alerts monthly).Run h s ∧ s.data.world.observed = [10] ∧
    (s.data.db.committed (rowKey monthly 4 80)).isSome ∧
    (s.data.db.committed (rowKey monthly 4 100)).isSome
  := by
  obtain ⟨h, s, run, actions, -, result⟩ := (alerts monthly).exists_history_of_execWhile
    (.start 0 (.reserve 10) :: List.replicate 8 (.step 0) ++ [.finish 0]) (fun _ _ => true)
    (fun s => decide (s.data.world.observed = [10]) && (s.sessions 0).isNone)
    (s := ⟨⟨Db.ofRows fun _ => none, {}⟩, fun _ => none⟩)
    ⟨⟨fun _ _ => rfl, rfl, rfl, rfl⟩, fun _ => rfl, fun _ => Db.idle_ofRows _⟩
    (by decide +kernel)
  obtain ⟨observed, ended⟩ := Bool.and_eq_true_iff.mp result
  have observed : s.data.world.observed = [10] := of_decide_eq_true observed
  have idle (t : ℕ) : s.sessions t = none := by
    by_cases own : t = 0
    · subst own
      exact Option.isNone_iff_eq_none.mp ended
    · apply Server.sessions_eq_none run
      intro c hc
      rw [actions] at hc
      simp [own] at hc
  have delivered (threshold : ℕ) (configured : threshold ∈ quotaThresholds monthly) :
      (s.data.db.committed (rowKey monthly 4 threshold)).isSome := by
    apply (@notification_exists_iff_crossed monthly (by decide) (by decide) _ _ run
      (fun t x hx => nomatch (idle t).symm.trans hx) _ (by decide) _ configured).mpr
    refine ⟨10, by rw [observed]; decide, ?_⟩
    have percent : (threshold : ℤ) ≤ 100 := by exact_mod_cast (quotaThresholds_le configured).2
    unfold Crosses
    change (threshold : ℤ) * 10 ≤ 10 * 100
    omega
  exact ⟨h, s, run, observed, delivered 80 (by decide +kernel), delivered 100 (by decide +kernel)⟩

end Lumina.Quota.Alerts
