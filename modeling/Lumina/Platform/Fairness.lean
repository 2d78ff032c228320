import Lumina.Library.Counters
import Lumina.Library.Transition
import Mathlib.Data.Finset.Card

/-!
# TenantSlotLimiter

Any number of document tasks of all tenants are under way at the same time.  A task asks for a slot,
runs, and gives the slot back; it may die at each of its commands and while it runs, because of an
exception outside of the `try` or because its worker is killed, and a command may have been executed
nevertheless.

Moments are in milliseconds.  A key is kept as its parts, as in `t:{tenant}:slots:{kind}`.
-/

namespace Lumina.Platform.Fairness

open Transition

/-- The parts of a key: `t:{tenant}:slots:{kind}`. -/
structure Key where
  tenantId : ℕ
  kind : String
deriving DecidableEq, Repr

/-- `_SLOT_TTL_SECONDS` -/
def ttlMs : ℕ := 3600000

/-- How far a task has come. -/
inductive Phase where
  | absent
  /-- `INCR` of `acquire` is next. -/
  | asking (k : Key)
  /-- `EXPIRE` is next, after the answer to `INCR`. -/
  | refreshing (k : Key) (active : ℤ)
  /-- `DECR` of `acquire` is next. -/
  | refusing (k : Key)
  | running (k : Key)
  /-- `DECR` of `release` is next. -/
  | releasing (k : Key)
  /-- `INCR` of `release` is next. -/
  | restoring (k : Key)
  | ended
  /-- The task has been interrupted. -/
  | dead (k : Key)
deriving DecidableEq

namespace Phase

/-- The task has incremented the counter, and has it still to decrement. -/
def pendingOn (k : Key) : Phase → Bool
  | refreshing k' _ => k' = k
  | refusing k' => k' = k
  | running k' => k' = k
  | releasing k' => k' = k
  | _ => false

/-- The task has a slot. -/
def holdsOn (cap : ℤ) (k : Key) : Phase → Bool
  | refreshing k' active => k' = k && active ≤ cap
  | running k' => k' = k
  | releasing k' => k' = k
  | _ => false

/-- The task has incremented the counter, or has died before. -/
def started : Phase → Bool
  | absent => false
  | asking _ => false
  | _ => true

end Phase

/-- The clock and the counters of the server, and the tasks.  Three ghosts tell of each counter: the
tasks that have incremented it since it was last gone and have not decremented it, the tasks of which
it forgot while they were under way, and how often tasks that it does not count have decremented it
more often than it was put right. -/
structure State where
  now : ℕ
  keys : Counters Key := fun _ => none
  tasks : ℕ → Phase := fun _ => .absent
  counted : Key → Finset ℕ := fun _ => ∅
  forgotten : Key → Finset ℕ := fun _ => ∅
  strays : Key → ℤ := fun _ => 0

inductive Action where
  | elapse (ms : ℕ)
  | start (r : ℕ) (k : Key)
  /-- The task gets the answer to its next command. -/
  | command (r : ℕ)
  /-- The work of the task ends, in whichever way. -/
  | finish (r : ℕ)
  /-- The task dies; its next command may be executed. -/
  | die (r : ℕ) (executed : Bool)
deriving DecidableEq, Repr

namespace State

variable (s : State)

def put (r : ℕ) (p : Phase) : State :=
  { s with tasks := Function.update s.tasks r p }

/-- A counter that has expired is removed before a command looks at it. -/
def settle (k : Key) : State :=
  match s.keys.read s.now k with
  | some _ => s
  | none =>
      { s with
        keys := Function.update s.keys k none
        counted := Function.update s.counted k ∅
        forgotten := Function.update s.forgotten k
          (s.forgotten k ∪ (s.counted k).filter fun r => (s.tasks r).pendingOn k)
        strays := Function.update s.strays k 0 }

/-- The value that the next command finds. -/
def active (k : Key) : ℤ := s.keys.count s.now k

/-- `INCR` of `acquire`, of a counter that has not expired. -/
def enlist (k : Key) (r : ℕ) : State :=
  { s with
    keys := s.keys.incrBy s.now k 1
    counted := Function.update s.counted k (insert r (s.counted k)) }

/-- `DECR`, of a counter that has not expired. -/
def strike (k : Key) (r : ℕ) : State :=
  { s with
    keys := s.keys.incrBy s.now k (-1)
    counted := Function.update s.counted k ((s.counted k).erase r)
    strays := Function.update s.strays k (s.strays k + if r ∈ s.counted k then 0 else 1) }

/-- `INCR` of `release`, of a counter that has not expired. -/
def amend (k : Key) : State :=
  { s with
    keys := s.keys.incrBy s.now k 1
    strays := Function.update s.strays k (s.strays k - 1) }

/-- `INCR` of `acquire` is executed. -/
def incr (k : Key) (r : ℕ) : State := (s.settle k).enlist k r

/-- `EXPIRE` is executed. -/
def expire (k : Key) : State :=
  { s with keys := s.keys.expire s.now k ttlMs }

/-- `DECR` is executed. -/
def decr (k : Key) (r : ℕ) : State := (s.settle k).strike k r

/-- `INCR` of `release` is executed. -/
def restore (k : Key) : State := (s.settle k).amend k

end State

/-- `acquire`, after `EXPIRE`. -/
def afterExpire (cap : ℤ) (k : Key) (active : ℤ) : Phase :=
  if active > cap then .refusing k else .running k

/-- `release`, after `DECR`. -/
def afterDecr (k : Key) (remaining : ℤ) : Phase :=
  if remaining < 0 then .restoring k else .ended

/-- What a task does next. -/
def command (cap : ℤ) (r : ℕ) (s : State) : Option State :=
  match s.tasks r with
  | .asking k => some ((s.incr k r).put r (.refreshing k (s.active k + 1)))
  | .refreshing k active => some ((s.expire k).put r (afterExpire cap k active))
  | .refusing k => some ((s.decr k r).put r .ended)
  | .releasing k => some ((s.decr k r).put r (afterDecr k (s.active k - 1)))
  | .restoring k => some ((s.restore k).put r .ended)
  | _ => none

/-- The end of a task that dies. -/
def die (r : ℕ) (executed : Bool) (s : State) : Option State :=
  match s.tasks r with
  | .asking k => some ((if executed then s.incr k r else s).put r (.dead k))
  | .refreshing k _ => some ((if executed then s.expire k else s).put r (.dead k))
  | .refusing k => some ((if executed then s.decr k r else s).put r (.dead k))
  | .running k => some (s.put r (.dead k))
  | .releasing k => some ((if executed then s.decr k r else s).put r (.dead k))
  | .restoring k => some ((if executed then s.restore k else s).put r (.dead k))
  | _ => none

def step (cap : ℤ) : Action → State → Option State
  | .elapse ms, s => some { s with now := s.now + ms }
  | .start r k, s => if s.tasks r = .absent then some (s.put r (.asking k)) else none
  | .command r, s => command cap r s
  | .finish r, s =>
      match s.tasks r with
      | .running k => some (s.put r (.releasing k))
      | _ => none
  | .die r executed, s => die r executed s

/-- The tasks, where a tenant may have `cap` slots, and the server without a counter at first. -/
def machine (cap : ℤ) : Machine State Action where
  init s := ∃ now, s = { now }
  step := step cap

variable {cap : ℤ}

/-! ### What a step does -/

/-- A task goes on without a word to its counter: it keeps what it has on the counter. -/
structure Quiet (cap : ℤ) (p q : Phase) : Prop where
  pending : ∀ k, q.pendingOn k = true → p.pendingOn k = true
  stays : ∀ k, p.pendingOn k = true → q.pendingOn k = true ∨ q = .dead k
  dead : ∀ k, p ≠ .dead k
  holds : ∀ k, q.holdsOn cap k = true → p.holdsOn cap k = true
  started : p.started = true → q.started = true
  unrestored : ∀ k, q ≠ .restoring k

/-- What a step may be, task by task. -/
inductive Moved (cap : ℤ) (s : State) : State → Prop where
  | clock (ms : ℕ) : Moved cap s { s with now := s.now + ms }
  | quiet (r : ℕ) (q : Phase) : Quiet cap (s.tasks r) q → Moved cap s (s.put r q)
  | incr (r : ℕ) (k : Key) (q : Phase) :
      s.tasks r = .asking k → q = .refreshing k (s.active k + 1) ∨ q = .dead k →
      Moved cap s ((s.incr k r).put r q)
  | expire (r : ℕ) (k : Key) (q : Phase) :
      Quiet cap (s.tasks r) q → Moved cap s ((s.expire k).put r q)
  | decr (r : ℕ) (k : Key) (q : Phase) :
      (s.tasks r).pendingOn k = true → (∀ k', q.pendingOn k' = false) → q.started = true →
      (∀ k', q = .restoring k' → k' = k ∧ s.active k < 1) → Moved cap s ((s.decr k r).put r q)
  | restore (r : ℕ) (k : Key) (q : Phase) :
      s.tasks r = .restoring k → q = .ended ∨ q = .dead k → Moved cap s ((s.restore k).put r q)

theorem quiet_dead {p : Phase} {k : Key}
    (h : p.pendingOn k = true ∨ p = .asking k ∨ p = .restoring k) :
  Quiet cap p (.dead k)
  := by
  constructor
  · intro k' impossible
    cases impossible
  · intro k' pending
    obtain h | rfl | rfl := h
    · right
      have same : k = k' := by
        cases p
        all_goals simp_all [Phase.pendingOn]
      rw [same]
    · cases pending
    · cases pending
  · intro k' same
    obtain h | rfl | rfl := h
    · rw [same] at h
      cases h
    · cases same
    · cases same
  · intro k' impossible
    cases impossible
  · exact fun _ => rfl
  · exact nofun

theorem quiet_afterExpire (k : Key) (active : ℤ) :
  Quiet cap (.refreshing k active) (afterExpire cap k active)
  := by
  unfold afterExpire
  split
  · constructor
    · exact fun _ h => h
    · exact fun _ h => .inl h
    · exact nofun
    · intro k' impossible
      cases impossible
    · exact fun _ => rfl
    · exact nofun
  · case isFalse le =>
    constructor
    · exact fun _ h => h
    · exact fun _ h => .inl h
    · exact nofun
    · intro k' h
      simp only [Phase.holdsOn, Bool.and_eq_true, decide_eq_true_eq]
      exact ⟨of_decide_eq_true h, Int.not_lt.mp le⟩
    · exact fun _ => rfl
    · exact nofun

theorem quiet_finish (k : Key) :
  Quiet cap (.running k) (.releasing k)
  := by
  constructor
  · exact fun _ h => h
  · exact fun _ h => .inl h
  · exact nofun
  · exact fun _ h => h
  · exact fun _ => rfl
  · exact nofun

theorem quiet_start (k : Key) :
  Quiet cap .absent (.asking k)
  := by
  constructor
  all_goals exact nofun

theorem moved_of_command {s t : State} {r : ℕ} (h : command cap r s = some t) :
  Moved cap s t
  := by
  unfold command at h
  split at h
  · case h_1 k asking =>
    cases h
    exact Moved.incr r k _ asking (.inl rfl)
  · case h_2 k active refreshing =>
    cases h
    apply Moved.expire r k
    rw [refreshing]
    apply quiet_afterExpire
  · case h_3 k refusing =>
    cases h
    apply Moved.decr r k .ended _ (fun _ => rfl) rfl nofun
    rw [refusing]
    exact decide_eq_true rfl
  · case h_4 k releasing =>
    cases h
    apply Moved.decr r k
    · rw [releasing]
      exact decide_eq_true rfl
    · intro k'
      unfold afterDecr
      split
      all_goals rfl
    · unfold afterDecr
      split
      all_goals rfl
    · intro k' restoring
      unfold afterDecr at restoring
      split at restoring
      · cases restoring
        exact ⟨rfl, by omega⟩
      · cases restoring
  · case h_5 k restoring =>
    cases h
    exact Moved.restore r k _ restoring (.inl rfl)
  · cases h

theorem moved_of_die {s t : State} {r : ℕ} {executed : Bool} (h : die r executed s = some t) :
  Moved cap s t
  := by
  unfold die at h
  split at h
  · case h_1 k asking =>
    cases executed with
    | true =>
      cases h
      exact Moved.incr r k _ asking (.inr rfl)
    | false =>
      cases h
      apply Moved.quiet r
      rw [asking]
      exact quiet_dead (.inr (.inl rfl))
  · case h_2 k active refreshing =>
    have quiet : Quiet cap (s.tasks r) (.dead k) := by
      rw [refreshing]
      exact quiet_dead (.inl (decide_eq_true rfl))
    cases executed with
    | true =>
      cases h
      exact Moved.expire r k _ quiet
    | false =>
      cases h
      exact Moved.quiet r _ quiet
  · case h_3 k refusing =>
    have pending : (s.tasks r).pendingOn k = true := by
      rw [refusing]
      exact decide_eq_true rfl
    cases executed with
    | true =>
      cases h
      exact Moved.decr r k _ pending (fun _ => rfl) rfl nofun
    | false =>
      cases h
      exact Moved.quiet r _ (quiet_dead (.inl pending))
  · case h_4 k running =>
    cases h
    apply Moved.quiet r
    rw [running]
    exact quiet_dead (.inl (decide_eq_true rfl))
  · case h_5 k releasing =>
    have pending : (s.tasks r).pendingOn k = true := by
      rw [releasing]
      exact decide_eq_true rfl
    cases executed with
    | true =>
      cases h
      exact Moved.decr r k _ pending (fun _ => rfl) rfl nofun
    | false =>
      cases h
      exact Moved.quiet r _ (quiet_dead (.inl pending))
  · case h_6 k restoring =>
    cases executed with
    | true =>
      cases h
      exact Moved.restore r k _ restoring (.inr rfl)
    | false =>
      cases h
      apply Moved.quiet r
      rw [restoring]
      exact quiet_dead (.inr (.inr rfl))
  · cases h

theorem moved_of_step {s t : State} {a : Action} (h : (machine cap).step a s = some t) :
  Moved cap s t
  := by
  cases a with
  | elapse ms =>
    cases h
    exact Moved.clock ms
  | start r k =>
    simp only [machine, step] at h
    split at h
    · case isTrue absent =>
      cases h
      apply Moved.quiet r
      rw [absent]
      apply quiet_start
    · cases h
  | command r => exact moved_of_command h
  | finish r =>
    simp only [machine, step] at h
    split at h
    · case h_1 k running =>
      cases h
      apply Moved.quiet r
      rw [running]
      apply quiet_finish
    · cases h
  | die r executed => exact moved_of_die h

/-! ### The books -/

/-- The forgotten tasks that have nothing more on the counter. -/
def State.past (s : State) (k : Key) : Finset ℕ :=
  (s.forgotten k).filter fun r => (s.tasks r).pendingOn k = false

/-- The tasks with a slot that the counter knows of. -/
def State.holders (cap : ℤ) (s : State) (k : Key) : Finset ℕ :=
  (s.counted k).filter fun r => (s.tasks r).holdsOn cap k = true

/-- The counters agree with the ghosts, every task that has something on its counter is counted or
forgotten, and there are no more slots than the limit and the forgotten tasks that have left. -/
structure Sound (cap : ℤ) (s : State) : Prop where
  value : ∀ k c, s.keys k = some c → c.value = (s.counted k).card - s.strays k
  missing : ∀ k, s.keys k = none → s.counted k = ∅ ∧ s.strays k = 0
  tracked : ∀ r k, (s.tasks r).pendingOn k = true → r ∈ s.counted k ∨ r ∈ s.forgotten k
  places : ∀ r k, r ∈ s.counted k → (s.tasks r).pendingOn k = true ∨ s.tasks r = .dead k
  started : ∀ r k, r ∈ s.forgotten k → (s.tasks r).started = true
  strays_le : ∀ k, s.strays k ≤ (s.past k).card
  holders_le : ∀ k, (s.holders cap k).card ≤ cap.toNat + (s.past k).card

theorem sound_of_init {s : State} (h : (machine cap).init s) :
  Sound cap s
  := by
  obtain ⟨now, rfl⟩ := h
  constructor
  · exact nofun
  · exact fun _ _ => ⟨rfl, rfl⟩
  · exact nofun
  · exact nofun
  · exact nofun
  · exact fun _ => le_refl _
  · exact fun _ => Nat.zero_le _

theorem tasks_put_self (s : State) (r : ℕ) (p : Phase) :
  (s.put r p).tasks r = p
  := by
  apply Function.update_self

theorem tasks_put_of_ne (s : State) {r r' : ℕ} (h : r' ≠ r) (p : Phase) :
  (s.put r p).tasks r' = s.tasks r'
  := by
  apply Function.update_of_ne h

/-- The forgotten tasks that have left stay so. -/
theorem past_subset_put {s : State} {r : ℕ} {q : Phase} {k : Key}
    (h : q.pendingOn k = true → (s.tasks r).pendingOn k = true) :
  s.past k ⊆ (s.put r q).past k
  := by
  intro r' mem
  obtain ⟨forgotten, left⟩ := Finset.mem_filter.mp mem
  refine Finset.mem_filter.mpr ⟨forgotten, ?_⟩
  by_cases mine : r' = r
  · subst mine
    rw [tasks_put_self]
    cases pending : q.pendingOn k with
    | false => rfl
    | true =>
      rw [h pending] at left
      cases left
  · rw [tasks_put_of_ne s mine]
    exact left

theorem holders_put_subset {s : State} {r : ℕ} {q : Phase} {k : Key}
    (h : q.holdsOn cap k = true → (s.tasks r).holdsOn cap k = true) :
  (s.put r q).holders cap k ⊆ s.holders cap k
  := by
  intro r' mem
  obtain ⟨counted, holds⟩ := Finset.mem_filter.mp mem
  refine Finset.mem_filter.mpr ⟨counted, ?_⟩
  by_cases mine : r' = r
  · subst mine
    rw [tasks_put_self] at holds
    exact h holds
  · rw [tasks_put_of_ne s mine] at holds
    exact holds

theorem Sound.quiet {s : State} (h : Sound cap s) {r : ℕ} {q : Phase}
    (move : Quiet cap (s.tasks r) q) :
  Sound cap (s.put r q)
  := by
  refine ⟨h.value, h.missing, ?_, ?_, ?_, ?_, ?_⟩
  · intro r' k pending
    by_cases mine : r' = r
    · subst mine
      rw [tasks_put_self] at pending
      exact h.tracked r' k (move.pending k pending)
    · rw [tasks_put_of_ne s mine] at pending
      exact h.tracked r' k pending
  · intro r' k counted
    by_cases mine : r' = r
    · subst mine
      rw [tasks_put_self]
      obtain pending | dead := h.places r' k counted
      · exact move.stays k pending
      · exact absurd dead (move.dead k)
    · rw [tasks_put_of_ne s mine]
      exact h.places r' k counted
  · intro r' k forgotten
    by_cases mine : r' = r
    · subst mine
      rw [tasks_put_self]
      exact move.started (h.started r' k forgotten)
    · rw [tasks_put_of_ne s mine]
      exact h.started r' k forgotten
  · intro k
    have grown := Finset.card_le_card (past_subset_put (move.pending k))
    have := h.strays_le k
    have same : (s.put r q).strays k = s.strays k := rfl
    omega
  · intro k
    have grown := Finset.card_le_card (past_subset_put (move.pending k))
    have shrunk := Finset.card_le_card (holders_put_subset (move.holds k))
    have := h.holders_le k
    omega

theorem Sound.expire {s : State} (h : Sound cap s) (k : Key) :
  Sound cap (s.expire k)
  := by
  refine ⟨?_, ?_, h.tracked, h.places, h.started, h.strays_le, h.holders_le⟩
  · intro k' c found
    simp only [State.expire] at found ⊢
    by_cases same : k' = k
    · subst same
      cases read : s.keys.read s.now k' with
      | none =>
        rw [Counters.expire_of_none read] at found
        exact h.value k' c found
      | some c' =>
        rw [Counters.expire_of_read read, Function.update_self] at found
        cases found
        exact h.value k' c' (Counters.read_eq_some_iff.mp read).1
    · rw [Counters.expire_of_ne _ _ same] at found
      exact h.value k' c found
  · intro k' none
    simp only [State.expire] at none ⊢
    by_cases same : k' = k
    · subst same
      cases read : s.keys.read s.now k' with
      | none =>
        rw [Counters.expire_of_none read] at none
        exact h.missing k' none
      | some c' =>
        rw [Counters.expire_of_read read, Function.update_self] at none
        cases none
    · rw [Counters.expire_of_ne _ _ same] at none
      exact h.missing k' none

/-! ### A counter that is gone -/

theorem settle_of_read {s : State} {k : Key} {c : Counter} (h : s.keys.read s.now k = some c) :
  s.settle k = s
  := by
  unfold State.settle
  rw [h]

theorem settle_of_none {s : State} {k : Key} (h : s.keys.read s.now k = none) :
  s.settle k =
    { s with
      keys := Function.update s.keys k none
      counted := Function.update s.counted k ∅
      forgotten := Function.update s.forgotten k
        (s.forgotten k ∪ (s.counted k).filter fun r => (s.tasks r).pendingOn k)
      strays := Function.update s.strays k 0 }
  := by
  unfold State.settle
  rw [h]

theorem tasks_settle (s : State) (k : Key) :
  (s.settle k).tasks = s.tasks
  := by
  unfold State.settle
  split
  all_goals rfl

theorem now_settle (s : State) (k : Key) :
  (s.settle k).now = s.now
  := by
  unfold State.settle
  split
  all_goals rfl

/-- The removal of an expired counter does not show. -/
theorem count_settle (s : State) (k : Key) :
  (s.settle k).keys.count s.now k = s.active k
  := by
  unfold State.active
  cases read : s.keys.read s.now k with
  | some c => rw [settle_of_read read]
  | none =>
    rw [settle_of_none read, Counters.count_of_none read]
    apply Counters.count_of_none
    simp only [Counters.read, Function.update_self, Option.filter_none]

theorem Sound.settle {s : State} (h : Sound cap s) (k : Key) :
  Sound cap (s.settle k)
  := by
  cases read : s.keys.read s.now k with
  | some c =>
    rw [settle_of_read read]
    exact h
  | none =>
    rw [settle_of_none read]
    have grown : ∀ k', s.past k' ⊆ State.past
        { s with
          keys := Function.update s.keys k none
          counted := Function.update s.counted k ∅
          forgotten := Function.update s.forgotten k
            (s.forgotten k ∪ (s.counted k).filter fun r => (s.tasks r).pendingOn k)
          strays := Function.update s.strays k 0 } k' := by
      intro k' r mem
      obtain ⟨forgotten, left⟩ := Finset.mem_filter.mp mem
      refine Finset.mem_filter.mpr ⟨?_, left⟩
      by_cases same : k' = k
      · subst same
        simp only [Function.update_self]
        exact Finset.mem_union_left _ forgotten
      · simp only [Function.update_of_ne same]
        exact forgotten
    refine ⟨?_, ?_, ?_, ?_, ?_, ?_, ?_⟩
    · intro k' c found
      by_cases same : k' = k
      · subst same
        simp only [Function.update_self] at found
        cases found
      · simp only [Function.update_of_ne same] at found ⊢
        exact h.value k' c found
    · intro k' missing
      by_cases same : k' = k
      · subst same
        simp only [Function.update_self]
        exact ⟨trivial, trivial⟩
      · simp only [Function.update_of_ne same] at missing ⊢
        exact h.missing k' missing
    · intro r k' pending
      by_cases same : k' = k
      · subst same
        simp only [Function.update_self]
        right
        obtain counted | forgotten := h.tracked r k' pending
        · exact Finset.mem_union_right _ (Finset.mem_filter.mpr ⟨counted, pending⟩)
        · exact Finset.mem_union_left _ forgotten
      · simp only [Function.update_of_ne same]
        exact h.tracked r k' pending
    · intro r k' counted
      by_cases same : k' = k
      · subst same
        simp only [Function.update_self, Finset.notMem_empty] at counted
      · simp only [Function.update_of_ne same] at counted
        exact h.places r k' counted
    · intro r k' forgotten
      by_cases same : k' = k
      · subst same
        simp only [Function.update_self] at forgotten
        obtain forgotten | counted := Finset.mem_union.mp forgotten
        · exact h.started r k' forgotten
        · have pending := (Finset.mem_filter.mp counted).2
          revert pending
          cases s.tasks r
          all_goals simp [Phase.pendingOn, Phase.started]
      · simp only [Function.update_of_ne same] at forgotten
        exact h.started r k' forgotten
    · intro k'
      have larger := Finset.card_le_card (grown k')
      by_cases same : k' = k
      · subst same
        simp only [Function.update_self]
        omega
      · have := h.strays_le k'
        simp only [Function.update_of_ne same]
        omega
    · intro k'
      have larger := Finset.card_le_card (grown k')
      by_cases same : k' = k
      · subst same
        simp only [State.holders, Function.update_self, Finset.filter_empty, Finset.card_empty]
        omega
      · have := h.holders_le k'
        simp only [State.holders, Function.update_of_ne same] at this ⊢
        omega

/-- What the next command finds is what the ghosts say. -/
theorem Sound.active_eq {s : State} (h : Sound cap s) (k : Key) :
  s.active k = ((s.settle k).counted k).card - (s.settle k).strays k
  := by
  unfold State.active
  cases read : s.keys.read s.now k with
  | some c =>
    rw [settle_of_read read, Counters.count_of_read read]
    exact h.value k c (Counters.read_eq_some_iff.mp read).1
  | none =>
    rw [settle_of_none read, Counters.count_of_none read]
    simp only [Function.update_self, Finset.card_empty]
    rfl

/-! ### The commands -/

/-- The value of the counter is what the ghosts say. -/
def State.Agrees (u : State) (k : Key) : Prop :=
  u.keys.count u.now k = (u.counted k).card - u.strays k

theorem Sound.agrees {s : State} (h : Sound cap s) (k : Key) :
  (s.settle k).Agrees k
  := by
  unfold State.Agrees
  rw [now_settle, count_settle, h.active_eq]

/-- After a change of a counter by a command its value agrees with the ghosts, if theirs has changed
by as much. -/
theorem Sound.value_incrBy {u : State} (h : Sound cap u) {k : Key} (agrees : u.Agrees k)
    (counted : Finset ℕ) (strays amount : ℤ)
    (change : (counted.card : ℤ) - strays = (u.counted k).card - u.strays k + amount) :
  ∀ k' c, u.keys.incrBy u.now k amount k' = some c →
    c.value = (Function.update u.counted k counted k').card - Function.update u.strays k strays k'
  := by
  intro k' c found
  by_cases same : k' = k
  · subst same
    rw [Counters.incrBy_self] at found
    cases found
    rw [Function.update_self, Function.update_self]
    unfold State.Agrees at agrees
    simp only
    omega
  · rw [Counters.incrBy_of_ne _ _ same] at found
    rw [Function.update_of_ne same, Function.update_of_ne same]
    exact h.value k' c found

theorem Sound.missing_incrBy {u : State} (h : Sound cap u) (k : Key) (amount strays : ℤ)
    (counted : Finset ℕ) :
  ∀ k', u.keys.incrBy u.now k amount k' = none →
    Function.update u.counted k counted k' = ∅ ∧ Function.update u.strays k strays k' = 0
  := by
  intro k' missing
  by_cases same : k' = k
  · subst same
    rw [Counters.incrBy_self] at missing
    cases missing
  · rw [Counters.incrBy_of_ne _ _ same] at missing
    rw [Function.update_of_ne same, Function.update_of_ne same]
    exact h.missing k' missing

theorem Sound.not_counted_of_asking {u : State} (h : Sound cap u) {r : ℕ} {k : Key}
    (asking : u.tasks r = .asking k) (k' : Key) :
  r ∉ u.counted k' ∧ r ∉ u.forgotten k'
  := by
  constructor
  · intro counted
    obtain pending | dead := h.places r k' counted
    · rw [asking] at pending
      cases pending
    · rw [asking] at dead
      cases dead
  · intro forgotten
    have started := h.started r k' forgotten
    rw [asking] at started
    cases started

theorem mem_counted_enlist {u : State} {k k' : Key} {r r' : ℕ} :
  r' ∈ (u.enlist k r).counted k' ↔ r' ∈ u.counted k' ∨ k' = k ∧ r' = r
  := by
  unfold State.enlist
  by_cases same : k' = k
  · subst same
    simp only [Function.update_self, Finset.mem_insert, true_and]
    exact or_comm
  · simp only [Function.update_of_ne same, same, false_and, or_false]

theorem mem_counted_strike {u : State} {k k' : Key} {r r' : ℕ} :
  r' ∈ (u.strike k r).counted k' ↔ r' ∈ u.counted k' ∧ ¬ (k' = k ∧ r' = r)
  := by
  unfold State.strike
  by_cases same : k' = k
  · subst same
    simp only [Function.update_self, Finset.mem_erase, true_and]
    exact and_comm
  · simp only [Function.update_of_ne same, same, false_and, not_false_eq_true, and_true]

theorem Sound.enlist {u : State} (h : Sound cap u) {r : ℕ} {k : Key} (agrees : u.Agrees k)
    (asking : u.tasks r = .asking k) {q : Phase}
    (next : q = .refreshing k (u.keys.count u.now k + 1) ∨ q = .dead k) :
  Sound cap ((u.enlist k r).put r q)
  := by
  have fresh := h.not_counted_of_asking asking
  have only_here : ∀ k', q.pendingOn k' = true → k' = k := by
    intro k' pending
    obtain rfl | rfl := next
    · exact (of_decide_eq_true pending).symm
    · cases pending
  have past : ∀ k', (u.past k').card ≤ (((u.enlist k r).put r q).past k').card := by
    intro k'
    apply Finset.card_le_card
    intro r' mem
    obtain ⟨forgotten, left⟩ := Finset.mem_filter.mp mem
    refine Finset.mem_filter.mpr ⟨forgotten, ?_⟩
    have ne : r' ≠ r := by
      rintro rfl
      exact (fresh k').2 forgotten
    rw [tasks_put_of_ne _ ne]
    exact left
  have card : (insert r (u.counted k)).card = (u.counted k).card + 1 :=
    Finset.card_insert_of_notMem (fresh k).1
  refine ⟨?_, ?_, ?_, ?_, ?_, ?_, ?_⟩
  · have values := h.value_incrBy agrees (insert r (u.counted k)) (u.strays k) 1
      (by rw [card, Nat.cast_add, Nat.cast_one, add_sub_right_comm])
    rw [Function.update_eq_self] at values
    exact values
  · have missing := h.missing_incrBy k 1 (u.strays k) (insert r (u.counted k))
    rw [Function.update_eq_self] at missing
    exact missing
  · intro r' k' pending
    by_cases mine : r' = r
    · subst mine
      rw [tasks_put_self] at pending
      left
      exact mem_counted_enlist.mpr (.inr ⟨only_here k' pending, rfl⟩)
    · rw [tasks_put_of_ne _ mine] at pending
      obtain counted | forgotten := h.tracked r' k' pending
      · exact .inl (mem_counted_enlist.mpr (.inl counted))
      · exact .inr forgotten
  · intro r' k' counted
    by_cases mine : r' = r
    · subst mine
      rw [tasks_put_self]
      obtain counted | ⟨rfl, -⟩ := mem_counted_enlist.mp counted
      · exact absurd counted (fresh k').1
      · obtain rfl | rfl := next
        · exact .inl (decide_eq_true rfl)
        · exact .inr rfl
    · rw [tasks_put_of_ne _ mine]
      obtain counted | ⟨-, same⟩ := mem_counted_enlist.mp counted
      · exact h.places r' k' counted
      · exact absurd same mine
  · intro r' k' forgotten
    have ne : r' ≠ r := by
      rintro rfl
      exact (fresh k').2 forgotten
    rw [tasks_put_of_ne _ ne]
    exact h.started r' k' forgotten
  · intro k'
    have larger := past k'
    have := h.strays_le k'
    have same : ((u.enlist k r).put r q).strays k' = u.strays k' := rfl
    omega
  · intro k'
    have larger := past k'
    by_cases granted : q.holdsOn cap k' = true
    · -- the task has been given a number within the limit, and so all that are counted fit
      obtain rfl | rfl := next
      · simp only [Phase.holdsOn, Bool.and_eq_true, decide_eq_true_eq] at granted
        obtain ⟨rfl, le⟩ := granted
        have strays := h.strays_le k
        have all : (((u.enlist k r).put r (.refreshing k (u.keys.count u.now k + 1))).holders
            cap k).card ≤ (insert r (u.counted k)).card := by
          apply Finset.card_le_card
          intro r' mem
          obtain counted | ⟨-, rfl⟩ := mem_counted_enlist.mp (Finset.mem_filter.mp mem).1
          · exact Finset.mem_insert_of_mem counted
          · exact Finset.mem_insert_self ..
        unfold State.Agrees at agrees
        omega
      · cases granted
    · have smaller : (((u.enlist k r).put r q).holders cap k').card ≤ (u.holders cap k').card := by
        apply Finset.card_le_card
        intro r' mem
        obtain ⟨counted, holds⟩ := Finset.mem_filter.mp mem
        have ne : r' ≠ r := by
          rintro rfl
          rw [tasks_put_self] at holds
          exact granted holds
        rw [tasks_put_of_ne _ ne] at holds
        obtain counted | ⟨-, same⟩ := mem_counted_enlist.mp counted
        · exact Finset.mem_filter.mpr ⟨counted, holds⟩
        · exact absurd same ne
      have := h.holders_le k'
      omega

theorem pendingOn_unique {p : Phase} {k k' : Key} (h : p.pendingOn k = true)
    (h' : p.pendingOn k' = true) :
  k' = k
  := by
  cases p
  all_goals simp_all [Phase.pendingOn]

theorem not_dead_of_pending {p : Phase} {k : Key} (h : p.pendingOn k = true) (k' : Key) :
  p ≠ .dead k'
  := by
  rintro rfl
  cases h

theorem Sound.strike {u : State} (h : Sound cap u) {r : ℕ} {k : Key} (agrees : u.Agrees k)
    (pending : (u.tasks r).pendingOn k = true) {q : Phase} (done : ∀ k', q.pendingOn k' = false)
    (started : q.started = true) :
  Sound cap ((u.strike k r).put r q)
  := by
  have idle : ∀ k', q.holdsOn cap k' = false := by
    intro k'
    have := done k'
    revert this
    cases q
    all_goals simp_all [Phase.pendingOn, Phase.holdsOn]
  have past : ∀ k', u.past k' ⊆ ((u.strike k r).put r q).past k' := by
    intro k' r' mem
    have grown := past_subset_put (s := u) (r := r) (q := q) (k := k') ?_ mem
    · exact grown
    · rw [done k']
      intro impossible
      cases impossible
  refine ⟨?_, ?_, ?_, ?_, ?_, ?_, ?_⟩
  · apply h.value_incrBy agrees
    by_cases counted : r ∈ u.counted k
    · have card := Finset.card_erase_add_one counted
      rw [if_pos counted]
      omega
    · rw [if_neg counted, Finset.erase_eq_of_notMem counted]
      omega
  · apply h.missing_incrBy
  · intro r' k' still
    have ne : r' ≠ r := by
      rintro rfl
      rw [tasks_put_self, done k'] at still
      cases still
    rw [tasks_put_of_ne _ ne] at still
    obtain counted | forgotten := h.tracked r' k' still
    · left
      exact mem_counted_strike.mpr ⟨counted, fun same => ne same.2⟩
    · exact .inr forgotten
  · intro r' k' counted
    obtain ⟨before, other⟩ := mem_counted_strike.mp counted
    have ne : r' ≠ r := by
      rintro rfl
      obtain pending' | dead := h.places r' k' before
      · exact other ⟨pendingOn_unique pending pending', rfl⟩
      · exact not_dead_of_pending pending k' dead
    rw [tasks_put_of_ne _ ne]
    exact h.places r' k' before
  · intro r' k' forgotten
    by_cases mine : r' = r
    · subst mine
      rw [tasks_put_self]
      exact started
    · rw [tasks_put_of_ne _ mine]
      exact h.started r' k' forgotten
  · intro k'
    have before := h.strays_le k'
    have larger := Finset.card_le_card (past k')
    by_cases same : k' = k
    · subst same
      have now : ((u.strike k' r).put r q).strays k' =
          u.strays k' + if r ∈ u.counted k' then 0 else 1 := Function.update_self ..
      rw [now]
      split
      · omega
      · case isFalse uncounted =>
        -- the task is one of those that the counter has forgotten, and it has left now
        have forgotten : r ∈ u.forgotten k' := (h.tracked r k' pending).resolve_left uncounted
        have gone : r ∈ ((u.strike k' r).put r q).past k' := by
          refine Finset.mem_filter.mpr ⟨forgotten, ?_⟩
          rw [tasks_put_self]
          exact done k'
        have here : r ∉ u.past k' := by
          intro mem
          rw [(Finset.mem_filter.mp mem).2] at pending
          cases pending
        have more := Finset.card_lt_card (Finset.ssubset_iff_of_subset (past k') |>.mpr
          ⟨r, gone, here⟩)
        omega
    · have now : ((u.strike k r).put r q).strays k' = u.strays k' := Function.update_of_ne same ..
      omega
  · intro k'
    have before := h.holders_le k'
    have larger := Finset.card_le_card (past k')
    have smaller : (((u.strike k r).put r q).holders cap k').card ≤ (u.holders cap k').card := by
      apply Finset.card_le_card
      intro r' mem
      obtain ⟨counted, holds⟩ := Finset.mem_filter.mp mem
      have ne : r' ≠ r := by
        rintro rfl
        rw [tasks_put_self, idle k'] at holds
        cases holds
      rw [tasks_put_of_ne _ ne] at holds
      exact Finset.mem_filter.mpr ⟨(mem_counted_strike.mp counted).1, holds⟩
    omega

theorem Sound.amend {u : State} (h : Sound cap u) {k : Key} (agrees : u.Agrees k) :
  Sound cap (u.amend k)
  := by
  refine ⟨?_, ?_, h.tracked, h.places, h.started, ?_, h.holders_le⟩
  · have values := h.value_incrBy agrees (u.counted k) (u.strays k - 1) 1 (by omega)
    rw [Function.update_eq_self] at values
    exact values
  · have missing := h.missing_incrBy k 1 (u.strays k - 1) (u.counted k)
    rw [Function.update_eq_self] at missing
    exact missing
  · intro k'
    have before := h.strays_le k'
    have same : (u.amend k).past k' = u.past k' := rfl
    rw [same]
    by_cases mine : k' = k
    · subst mine
      have now : (u.amend k').strays k' = u.strays k' - 1 := Function.update_self ..
      omega
    · have now : (u.amend k).strays k' = u.strays k' := Function.update_of_ne mine ..
      omega

theorem quiet_of_restoring {p q : Phase} {k : Key} (h : p = .restoring k)
    (next : q = .ended ∨ q = .dead k) :
  Quiet cap p q
  := by
  subst h
  obtain rfl | rfl := next
  · constructor
    · exact nofun
    · exact nofun
    · exact nofun
    · exact nofun
    · exact fun _ => rfl
    · exact nofun
  · exact quiet_dead (.inr (.inr rfl))

theorem Sound.step {s t : State} {a : Action} (h : Sound cap s)
    (hstep : (machine cap).step a s = some t) :
  Sound cap t
  := by
  cases moved_of_step hstep with
  | clock ms => exact ⟨h.value, h.missing, h.tracked, h.places, h.started, h.strays_le, h.holders_le⟩
  | quiet r q move => exact h.quiet move
  | incr r k q asking next =>
    rw [← tasks_settle s k] at asking
    apply (h.settle k).enlist (h.agrees k) asking
    rw [now_settle, count_settle]
    exact next
  | expire r k q move => exact (h.expire k).quiet move
  | decr r k q pending done started _ =>
    rw [← tasks_settle s k] at pending
    exact (h.settle k).strike (h.agrees k) pending done started
  | restore r k q restoring next =>
    have move : Quiet cap ((s.restore k).tasks r) q := by
      apply quiet_of_restoring _ next
      rw [← restoring, ← tasks_settle s k]
      rfl
    exact ((h.settle k).amend (h.agrees k)).quiet move

theorem Sound.of_run {h : List (State × Action)} {s : State} (run : (machine cap).Run h s) :
  Sound cap s
  := by
  apply run.invariant
  · exact fun s init => sound_of_init init
  · exact fun a s t sound hstep => sound.step hstep

/-- A tenant never has more slots than the limit and the tasks that its counter has forgotten while
they were under way. -/
theorem slots_bounded {h : List (State × Action)} {s : State} (run : (machine cap).Run h s) (k : Key)
    (ids : Finset ℕ) (all : ∀ r ∈ ids, (s.tasks r).holdsOn cap k = true) :
  ids.card ≤ cap.toNat + (s.forgotten k).card
  := by
  have sound := Sound.of_run run
  have pending : ∀ r ∈ ids, (s.tasks r).pendingOn k = true := by
    intro r mem
    have holds := all r mem
    revert holds
    cases s.tasks r
    all_goals simp_all [Phase.holdsOn, Phase.pendingOn]
  have covered : ids ⊆ s.holders cap k ∪ (s.forgotten k \ s.past k) := by
    intro r mem
    obtain counted | forgotten := sound.tracked r k (pending r mem)
    · exact Finset.mem_union_left _ (Finset.mem_filter.mpr ⟨counted, all r mem⟩)
    · apply Finset.mem_union_right
      refine Finset.mem_sdiff.mpr ⟨forgotten, ?_⟩
      intro gone
      have still := pending r mem
      rw [(Finset.mem_filter.mp gone).2] at still
      cases still
  have holders := sound.holders_le k
  have split := Finset.card_sdiff_add_card_eq_card
    (Finset.filter_subset (fun r => (s.tasks r).pendingOn k = false) (s.forgotten k))
  have past : s.past k = (s.forgotten k).filter fun r => (s.tasks r).pendingOn k = false := rfl
  calc
    ids.card ≤ (s.holders cap k ∪ (s.forgotten k \ s.past k)).card := Finset.card_le_card covered
    _ ≤ (s.holders cap k).card + (s.forgotten k \ s.past k).card := Finset.card_union_le ..
    _ ≤ cap.toNat + (s.forgotten k).card := by
      rw [past] at holders ⊢
      omega

/-! ### A small run -/

def sampleKey : Key := ⟨7, "etl"⟩

/-- A task gets the only slot of its tenant. -/
def slotTaken : List Action :=
  [.start 0 sampleKey, .command 0, .command 0]

/-- The task with the only slot. -/
theorem slots_bounded_sample :
  ∃ h s, (machine 1).Run h s ∧ s.tasks 0 = .running sampleKey ∧
    ({0} : Finset ℕ).card ≤ (1 : ℤ).toNat + (s.forgotten sampleKey).card
  := by
  obtain ⟨h, s, run, ends⟩ := (machine 1).exists_run_of_exec slotTaken
    (fun s => s.tasks 0 = .running sampleKey) (s := { now := 0 }) ⟨0, rfl⟩ (by decide +kernel)
  have running := of_decide_eq_true ends
  refine ⟨h, s, run, running, ?_⟩
  apply slots_bounded run
  intro r mem
  rw [Finset.mem_singleton.mp mem, running]
  rfl

/-! ### Counters that do not expire -/

/-- The counter has not expired. -/
def State.Alive (k : Key) (s : State) : Prop :=
  ∀ c, s.keys k = some c → c.Lives s.now

instance (k : Key) (s : State) : Decidable (s.Alive k) :=
  match h : s.keys k with
  | none => isTrue fun c found => by rw [h] at found; cases found
  | some c =>
    if lives : c.Lives s.now then
      isTrue fun c' found => by rw [h] at found; cases found; exact lives
    else isFalse fun alive => lives (alive c h)

/-- The counter has not expired at any step of the run. -/
def Lasting (k : Key) (h : List (State × Action)) : Prop :=
  ∀ x ∈ h, x.1.Alive k

theorem settle_of_alive {s : State} (sound : Sound cap s) {k : Key} (alive : s.Alive k) :
  s.settle k = s
  := by
  cases found : s.keys k with
  | some c => exact settle_of_read (Counters.read_eq_some_iff.mpr ⟨found, alive c found⟩)
  | none =>
    obtain ⟨counted, strays⟩ := sound.missing k found
    have read : s.keys.read s.now k = none := by
      unfold Counters.read
      rw [found]
      rfl
    have keys : Function.update s.keys k none = s.keys := by
      rw [← found, Function.update_eq_self]
    have uncounted : Function.update s.counted k ∅ = s.counted := by
      rw [← counted, Function.update_eq_self]
    have straight : Function.update s.strays k 0 = s.strays := by
      rw [← strays, Function.update_eq_self]
    rw [settle_of_none read, keys, uncounted, straight, counted, Finset.filter_empty,
      Finset.union_empty, Function.update_eq_self]

/-- What is known of a counter is not touched by what happens to others. -/
theorem settle_other (s : State) {k k' : Key} (h : k ≠ k') :
  (s.settle k').counted k = s.counted k ∧ (s.settle k').forgotten k = s.forgotten k ∧
    (s.settle k').strays k = s.strays k
  := by
  cases read : s.keys.read s.now k' with
  | some c =>
    rw [settle_of_read read]
    exact ⟨rfl, rfl, rfl⟩
  | none =>
    rw [settle_of_none read]
    simp only [Function.update_of_ne h]
    exact ⟨trivial, trivial, trivial⟩

/-- No task has been forgotten by the counter, and it has not been decremented by others than those
it counts. -/
structure Clean (k : Key) (s : State) : Prop where
  forgotten : s.forgotten k = ∅
  strays : s.strays k = 0
  unrestored : ∀ r, s.tasks r ≠ .restoring k

theorem clean_of_init {s : State} (h : (machine cap).init s) (k : Key) :
  Clean k s
  := by
  obtain ⟨now, rfl⟩ := h
  exact ⟨rfl, rfl, nofun⟩

section Cleanness

variable {k : Key} {s : State} (sound : Sound cap s) (clean : Clean k s)

include sound clean

theorem active_of_clean (alive : s.Alive k) :
  s.active k = (s.counted k).card
  := by
  rw [sound.active_eq, settle_of_alive sound alive, clean.strays, sub_zero]

/-- The task is counted, if it has something on a counter that has forgotten none. -/
theorem counted_of_clean {r : ℕ} (pending : (s.tasks r).pendingOn k = true) :
  r ∈ s.counted k
  := by
  obtain counted | forgotten := sound.tracked r k pending
  · exact counted
  · rw [clean.forgotten] at forgotten
    exact absurd forgotten (Finset.notMem_empty r)

end Cleanness

theorem unrestored_put {s : State} {k : Key} (h : ∀ r, s.tasks r ≠ .restoring k) {r : ℕ} {q : Phase}
    (hq : q ≠ .restoring k) :
  ∀ r', (s.put r q).tasks r' ≠ .restoring k
  := by
  intro r'
  by_cases mine : r' = r
  · subst mine
    rw [tasks_put_self]
    exact hq
  · rw [tasks_put_of_ne _ mine]
    exact h r'

theorem strays_strike_of_counted {s : State} {r : ℕ} {k : Key} (h : r ∈ s.counted k) :
  (s.strike k r).strays = s.strays
  := by
  unfold State.strike
  rw [if_pos h, add_zero, Function.update_eq_self]

/-- The removal of an expired counter leaves a clean one clean. -/
theorem Clean.settle {k : Key} {s : State} (clean : Clean k s) (sound : Sound cap s)
    (alive : s.Alive k) (k' : Key) :
  Clean k (s.settle k')
  := by
  by_cases same : k = k'
  · subst same
    rw [settle_of_alive sound alive]
    exact clean
  · obtain ⟨-, forgotten, strays⟩ := settle_other s same
    refine ⟨forgotten.trans clean.forgotten, strays.trans clean.strays, ?_⟩
    rw [tasks_settle]
    exact clean.unrestored

theorem Clean.step {k : Key} {s t : State} {a : Action} (clean : Clean k s) (sound : Sound cap s)
    (alive : s.Alive k) (hstep : (machine cap).step a s = some t) :
  Clean k t
  := by
  cases moved_of_step hstep with
  | clock ms => exact ⟨clean.forgotten, clean.strays, clean.unrestored⟩
  | quiet r q move =>
    exact ⟨clean.forgotten, clean.strays, unrestored_put clean.unrestored (move.unrestored k)⟩
  | incr r k' q asking next =>
    have settled := clean.settle sound alive k'
    refine ⟨settled.forgotten, settled.strays, unrestored_put settled.unrestored ?_⟩
    obtain rfl | rfl := next
    all_goals exact nofun
  | expire r k' q move =>
    exact ⟨clean.forgotten, clean.strays, unrestored_put clean.unrestored (move.unrestored k)⟩
  | decr r k' q pending done started negative =>
    have settled := clean.settle sound alive k'
    by_cases same : k' = k
    · subst same
      -- the task is counted, so that the counter is positive before and not negative afterwards
      have counted := counted_of_clean sound clean pending
      have pos := Finset.card_pos.mpr ⟨r, counted⟩
      have active := active_of_clean sound clean alive
      refine ⟨settled.forgotten, ?_, unrestored_put settled.unrestored ?_⟩
      · rw [← settle_of_alive sound alive] at counted
        exact (congrFun (strays_strike_of_counted counted) k').trans settled.strays
      · intro restoring
        have := (negative k' restoring).2
        omega
    · refine ⟨settled.forgotten, ?_, unrestored_put settled.unrestored ?_⟩
      · exact (Function.update_of_ne (Ne.symm same) ..).trans settled.strays
      · intro restoring
        exact same (negative k restoring).1.symm
  | restore r k' q restoring next =>
    have settled := clean.settle sound alive k'
    have other : k ≠ k' := by
      rintro rfl
      exact clean.unrestored r restoring
    refine ⟨settled.forgotten, ?_, unrestored_put settled.unrestored ?_⟩
    · exact (Function.update_of_ne other ..).trans settled.strays
    · obtain rfl | rfl := next
      all_goals exact nofun

theorem clean_of_run {k : Key} {h : List (State × Action)} {s : State} (run : (machine cap).Run h s)
    (lasting : Lasting k h) :
  ∀ u ∈ Machine.states h s, Sound cap u ∧ Clean k u
  := by
  apply run.forall_states_of_guard (I := fun s => Sound cap s ∧ Clean k s)
    (G := fun s _ => s.Alive k)
  · exact fun s init => ⟨sound_of_init init, clean_of_init init k⟩
  · exact fun a s t inv alive hstep => ⟨inv.1.step hstep, inv.2.step inv.1 alive hstep⟩
  · exact lasting

/-- The phase of a task after the answer to `INCR`. -/
theorem command_asking {s t : State} {r : ℕ} {k : Key} (asking : s.tasks r = .asking k)
    (h : command cap r s = some t) :
  t.tasks r = .refreshing k (s.active k + 1)
  := by
  unfold command at h
  rw [asking] at h
  cases h
  apply tasks_put_self

/-- While its counter does not expire, a tenant has no more slots than the limit, and is refused
another one exactly if as many tasks are counted; each of these has its slot, is asking for one, or
has died. -/
theorem slots_exact {k : Key} {h : List (State × Action)} {s : State} (run : (machine cap).Run h s)
    (lasting : Lasting k h) :
  (∀ ids : Finset ℕ, (∀ r ∈ ids, (s.tasks r).holdsOn cap k = true) → ids.card ≤ cap.toNat) ∧
  ∀ x ∈ h, ∀ r, x.2 = .command r → x.1.tasks r = .asking k →
    (∀ t, (machine cap).step x.2 x.1 = some t →
      ((t.tasks r).holdsOn cap k = true ↔ (x.1.counted k).card < cap)) ∧
    ∀ r' ∈ x.1.counted k, (x.1.tasks r').pendingOn k = true ∨ x.1.tasks r' = .dead k
  := by
  have inv := clean_of_run run lasting
  constructor
  · intro ids all
    have bounded := slots_bounded run k ids all
    rw [(inv s List.mem_cons_self).2.forgotten, Finset.card_empty] at bounded
    exact bounded
  · intro x hx r act asking
    obtain ⟨sound, clean⟩ := inv x.1 (List.mem_cons_of_mem _ (List.mem_map_of_mem hx))
    constructor
    · intro t hstep
      rw [act] at hstep
      have active := active_of_clean sound clean (lasting x hx)
      rw [command_asking asking hstep, active]
      simp only [Phase.holdsOn, Bool.and_eq_true, decide_eq_true_eq, true_and]
      omega
    · exact fun r' counted => sound.places r' k counted

/-- The task will get its answer. -/
theorem exists_step_of_asking (cap : ℤ) {s : State} {r : ℕ} {k : Key} (asking : s.tasks r = .asking k) :
  ∃ t, (machine cap).step (.command r) s = some t
  := by
  simp only [machine, step, command, asking]
  exact ⟨_, rfl⟩

/-- A second task of the tenant asks for a slot, and is refused. -/
theorem slots_exact_sample :
  ∃ h s t, (machine 1).Run h s ∧ s.tasks 1 = .asking sampleKey ∧
    (machine 1).step (.command 1) s = some t ∧ (t.tasks 1).holdsOn 1 sampleKey = false
  := by
  obtain ⟨h, s, run, alive, ends⟩ := (machine 1).exists_run_of_execWhile
    (slotTaken ++ [.start 1 sampleKey]) (fun s _ => decide (s.Alive sampleKey))
    (fun s => s.tasks 1 = .asking sampleKey ∧ (s.counted sampleKey).card = 1 ∧ s.Alive sampleKey)
    (s := { now := 0 }) ⟨0, rfl⟩ (by decide +kernel)
  obtain ⟨asking, taken, last⟩ := of_decide_eq_true ends
  obtain ⟨t, hstep⟩ := exists_step_of_asking 1 asking
  have lasting : Lasting sampleKey ((s, .command 1) :: h) := by
    intro x hx
    obtain rfl | hx := List.mem_cons.mp hx
    · exact last
    · exact of_decide_eq_true (alive x hx)
  obtain ⟨-, exact⟩ := slots_exact (run.step hstep) lasting
  have granted := (exact _ List.mem_cons_self 1 rfl asking).1 t hstep
  refine ⟨h, s, t, run, asking, hstep, ?_⟩
  rw [← Bool.not_eq_true, granted]
  simp only [taken]
  decide

/-! ### Slots of tasks that have died -/

/-- The tasks that have died with something on the counter. -/
def State.lost (s : State) (k : Key) : Finset ℕ :=
  (s.counted k).filter fun r => s.tasks r = .dead k

theorem lost_put_subset {s : State} {r : ℕ} (q : Phase) {k : Key} (h : s.tasks r ≠ .dead k) :
  s.lost k ⊆ (s.put r q).lost k
  := by
  intro r' mem
  obtain ⟨counted, dead⟩ := Finset.mem_filter.mp mem
  refine Finset.mem_filter.mpr ⟨counted, ?_⟩
  have ne : r' ≠ r := by
    rintro rfl
    exact h dead
  rw [tasks_put_of_ne _ ne]
  exact dead

theorem lost_settle {s : State} (sound : Sound cap s) {k : Key} (alive : s.Alive k) (k' : Key) :
  (s.settle k').lost k = s.lost k
  := by
  unfold State.lost
  by_cases same : k = k'
  · subst same
    rw [settle_of_alive sound alive]
  · rw [(settle_other s same).1, tasks_settle]

/-- While the counter does not expire, what has been lost is not found again. -/
theorem lost_step {s t : State} {a : Action} (sound : Sound cap s) {k : Key} (alive : s.Alive k)
    (hstep : (machine cap).step a s = some t) :
  s.lost k ⊆ t.lost k
  := by
  cases moved_of_step hstep with
  | clock ms => exact subset_rfl
  | quiet r q move => exact lost_put_subset q (move.dead k)
  | incr r k' q asking next =>
    rw [← tasks_settle s k'] at asking
    rw [← lost_settle sound alive k']
    apply subset_trans _ (lost_put_subset q (s := s.incr k' r) ?_)
    · intro r' mem
      obtain ⟨counted, dead⟩ := Finset.mem_filter.mp mem
      exact Finset.mem_filter.mpr ⟨mem_counted_enlist.mpr (.inl counted), dead⟩
    · have same : (s.incr k' r).tasks r = .asking k' := asking
      rw [same]
      exact nofun
  | expire r k' q move => exact lost_put_subset q (s := s.expire k') (move.dead k)
  | decr r k' q pending done started negative =>
    rw [← tasks_settle s k'] at pending
    rw [← lost_settle sound alive k']
    apply subset_trans _ (lost_put_subset q (s := s.decr k' r) ?_)
    · intro r' mem
      obtain ⟨counted, dead⟩ := Finset.mem_filter.mp mem
      refine Finset.mem_filter.mpr ⟨mem_counted_strike.mpr ⟨counted, ?_⟩, dead⟩
      rintro ⟨-, rfl⟩
      exact not_dead_of_pending pending k dead
    · exact not_dead_of_pending pending k
  | restore r k' q restoring next =>
    rw [← tasks_settle s k'] at restoring
    rw [← lost_settle sound alive k']
    apply lost_put_subset q (s := s.restore k')
    have same : (s.restore k').tasks r = .restoring k' := restoring
    rw [same]
    exact nofun

/-- Once as many tasks of a tenant have died as it may have slots, it gets none any more as long as
its counter does not expire; and each attempt puts the expiry off by an hour, also one that is
refused. -/
theorem tenant_starved {k : Key} {h : List (State × Action)} {s : State}
    (run : (machine cap).Run h s) (lasting : Lasting k h) (alive : s.Alive k) {u : State}
    (hu : u ∈ Machine.states h s) (full : cap ≤ (u.lost k).card) {r : ℕ} {t : State}
    (hstep : (machine cap).step (.command r) s = some t) :
  (s.tasks r = .asking k → (t.tasks r).holdsOn cap k = false) ∧
  ∀ active, s.tasks r = .refreshing k active →
    ∃ c, t.keys k = some c ∧ c.expiresAt = some (s.now + ttlMs)
  := by
  obtain ⟨sound, clean⟩ := clean_of_run run lasting s List.mem_cons_self
  have kept : ∀ v ∈ Machine.states h s, v.lost k ⊆ s.lost k := by
    apply run.forall_later (I := Sound cap) (G := fun s _ => s.Alive k)
      (R := fun v s => v.lost k ⊆ s.lost k)
    · exact fun s init => sound_of_init init
    · exact fun a s t sound _ hstep => sound.step hstep
    · exact fun s => subset_rfl
    · exact fun a v s t sound alive before hstep => before.trans (lost_step sound alive hstep)
    · exact lasting
  have counted : (u.lost k).card ≤ (s.counted k).card :=
    Finset.card_le_card ((kept u hu).trans (Finset.filter_subset ..))
  constructor
  · intro asking
    rw [command_asking asking hstep, active_of_clean sound clean alive]
    simp only [Phase.holdsOn, Bool.and_eq_false_iff, decide_eq_false_iff_not]
    right
    omega
  · intro n refreshing
    have pending : (s.tasks r).pendingOn k = true := by
      rw [refreshing]
      exact decide_eq_true rfl
    have mem := counted_of_clean sound clean pending
    cases found : s.keys k with
    | none =>
      rw [(sound.missing k found).1] at mem
      exact absurd mem (Finset.notMem_empty r)
    | some c =>
      have read := Counters.read_eq_some_iff.mpr ⟨found, alive c found⟩
      simp only [machine, step, command, refreshing] at hstep
      cases hstep
      refine ⟨{ c with expiresAt := some (s.now + ttlMs) }, ?_, rfl⟩
      simp only [State.put, State.expire, Counters.expire_of_read read, Function.update_self]

/-- The worker of the only task is killed; almost an hour later another task is refused. -/
theorem tenant_starved_sample :
  ∃ h s t, (machine 1).Run h s ∧ s.tasks 0 = .dead sampleKey ∧ s.tasks 1 = .asking sampleKey ∧
    (machine 1).step (.command 1) s = some t ∧ (t.tasks 1).holdsOn 1 sampleKey = false
  := by
  obtain ⟨h, s, run, alive, ends⟩ := (machine 1).exists_run_of_execWhile
    (slotTaken ++ [.die 0 false, .elapse 3599999, .start 1 sampleKey])
    (fun s _ => decide (s.Alive sampleKey))
    (fun s => s.tasks 0 = .dead sampleKey ∧ s.tasks 1 = .asking sampleKey ∧
      (s.lost sampleKey).card = 1 ∧ s.Alive sampleKey)
    (s := { now := 0 }) ⟨0, rfl⟩ (by decide +kernel)
  obtain ⟨dead, asking, lost, last⟩ := of_decide_eq_true ends
  obtain ⟨t, hstep⟩ := exists_step_of_asking 1 asking
  have lasting : Lasting sampleKey h := fun x hx => of_decide_eq_true (alive x hx)
  have full : (1 : ℤ) ≤ (s.lost sampleKey).card := by
    rw [lost]
    decide
  refine ⟨h, s, t, run, dead, asking, hstep, ?_⟩
  exact (tenant_starved run lasting last List.mem_cons_self full hstep).1 asking

end Lumina.Platform.Fairness
