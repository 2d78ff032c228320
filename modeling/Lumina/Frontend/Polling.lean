import Lumina.Library.Transition
import Mathlib.Algebra.Group.Nat.Defs
import Mathlib.Data.Int.Notation
import Mathlib.Data.List.Count
import Mathlib.Data.List.Nodup
import Mathlib.Data.Nat.Notation

/-!
# Polling

`usePolling` repeats a function until it is stopped: a timer expires, an execution of the function
begins, and when it settles the next timer is set.  Each start and each stop is a new generation,
and an execution of an earlier one has no effect when it settles; but it may still be in progress
when the timer of a later start expires, which is the only way to two executions at a time.  All
else that is said of the timers, of the stop and of the give-up holds along every run.
-/

namespace Lumina.Frontend

open Transition

structure PollingOptions where
  intervalMs : ℕ
  maxIntervalMs : Option ℕ := none
  maxFailures : ℤ := 5

/-- `maxIntervalMs`, or eight intervals. -/
def PollingOptions.longest (o : PollingOptions) : ℕ :=
  o.maxIntervalMs.getD (o.intervalMs * 8)

/-- A timer that is pending, and the argument of its callback. -/
structure PollingTimer where
  id : ℕ
  delayMs : ℕ
  ownGeneration : ℕ
deriving DecidableEq

/-- The variables of `usePolling`, and around them the timers that are pending, the executions in
progress by their generations, and the calls of `onGiveUp` with the generation that gave up. -/
structure Polling (ε : Type) where
  isPolling : Bool := false
  timer : Option ℕ := none
  failures : ℕ := 0
  generation : ℕ := 0
  pending : List PollingTimer := []
  nextTimer : ℕ := 0
  inFlight : List ℕ := []
  gaveUp : List (ℕ × ε) := []
deriving DecidableEq

/-- What happens: a call, the expiry of a timer, or an execution that settles, with the error if
there is one. -/
inductive PollingAction (ε : Type) where
  | start
  | stop
  | expire (id : ℕ)
  | settle (ownGeneration : ℕ) (error : Option ε)
deriving DecidableEq

namespace Polling

variable {ε : Type}

def schedule (s : Polling ε) (delayMs ownGeneration : ℕ) : Polling ε :=
  { s with
    timer := some s.nextTimer
    pending := s.pending ++ [⟨s.nextTimer, delayMs, ownGeneration⟩]
    nextTimer := s.nextTimer + 1 }

def clearTimeout (s : Polling ε) (id : ℕ) : Polling ε :=
  { s with pending := s.pending.filter (·.id ≠ id) }

def stop (s : Polling ε) : Polling ε :=
  let s := s.timer.elim s fun id => { s.clearTimeout id with timer := none }
  { s with generation := s.generation + 1, isPolling := false }

/-- `start` -/
def begin (o : PollingOptions) (s : Polling ε) : Polling ε :=
  if s.isPolling then s
  else
    let s := { s with isPolling := true, failures := 0, generation := s.generation + 1 }
    s.schedule o.intervalMs s.generation

/-- The part of `run` up to the end of `await fn()`. -/
def run (s : Polling ε) (ownGeneration : ℕ) : Polling ε :=
  { s with inFlight := s.inFlight ++ [ownGeneration] }

/-- The part of `run` after a failure. -/
def failed (o : PollingOptions) (s : Polling ε) (ownGeneration : ℕ) (error : ε) : Polling ε :=
  if ownGeneration ≠ s.generation then s
  else
    let s := { s with failures := s.failures + 1 }
    if o.maxFailures ≤ s.failures then
      { s.stop with gaveUp := s.gaveUp ++ [(ownGeneration, error)] }
    else s.schedule (min (o.intervalMs * 2 ^ s.failures) o.longest) ownGeneration

/-- The part of `run` after a success. -/
def succeeded (o : PollingOptions) (s : Polling ε) (ownGeneration : ℕ) : Polling ε :=
  if ownGeneration ≠ s.generation then s
  else { s with failures := 0 }.schedule o.intervalMs ownGeneration

def step (o : PollingOptions) : PollingAction ε → Polling ε → Option (Polling ε)
  | .start, s => some (s.begin o)
  | .stop, s => some s.stop
  | .expire id, s =>
      (s.pending.find? (·.id = id)).map fun timer => (s.clearTimeout id).run timer.ownGeneration
  | .settle own error, s =>
      if own ∈ s.inFlight then
        let s := { s with inFlight := s.inFlight.erase own }
        some (error.elim (s.succeeded o own) (s.failed o own))
      else none

end Polling

/-- One use of `usePolling`. -/
def polling (ε : Type) (o : PollingOptions) : Machine (Polling ε) (PollingAction ε) where
  init s := s = {}
  step := Polling.step o

/-! ### What holds along every run -/

namespace Polling

variable {ε : Type} {o : PollingOptions} {s t : Polling ε}

/-- The variable holds the timer that is pending, and no generation is in the future. -/
structure Tidy (s : Polling ε) : Prop where
  timer : ∀ timer ∈ s.pending, s.timer = some timer.id ∧ timer.ownGeneration = s.generation
  inFlight : ∀ own ∈ s.inFlight, own ≤ s.generation
  gaveUp : ∀ x ∈ s.gaveUp, x.1 < s.generation
  once : (s.gaveUp.map Prod.fst).Nodup

/-- While it polls, there is one timer or one execution of the present generation. -/
structure Sound (s : Polling ε) : Prop extends Tidy s where
  one : s.pending.length + s.inFlight.count s.generation = if s.isPolling then 1 else 0

/-- An execution has settled, and the next timer is not set yet. -/
structure Between (s : Polling ε) : Prop extends Tidy s where
  polling : s.isPolling = true
  pending : s.pending = []
  settled : s.inFlight.count s.generation = 0

theorem Sound.initial :
  Sound ({} : Polling ε)
  where
  timer _ h := nomatch h
  inFlight _ h := nomatch h
  gaveUp _ h := nomatch h
  once := List.nodup_nil
  one := rfl

theorem Between.schedule (h : Between s) (delayMs : ℕ) :
  Sound (s.schedule delayMs s.generation)
  where
  timer timer mem := by
    unfold Polling.schedule at mem
    rw [h.pending, List.nil_append, List.mem_singleton] at mem
    subst mem
    exact ⟨rfl, rfl⟩
  inFlight := h.inFlight
  gaveUp := h.gaveUp
  once := h.once
  one := by
    unfold Polling.schedule
    dsimp only
    rw [h.pending, h.settled, h.polling]
    rfl

theorem Tidy.pending_stop (h : Tidy s) :
  s.stop.pending = []
  := by
  unfold stop
  cases htimer : s.timer with
  | none =>
    refine List.eq_nil_iff_forall_not_mem.mpr fun timer mem => ?_
    exact Option.some_ne_none _ ((h.timer timer mem).1.symm.trans htimer)
  | some id =>
    refine List.filter_eq_nil_iff.mpr fun timer mem => ?_
    have same := (h.timer timer mem).1.symm.trans htimer
    simpa using same

theorem stop_eq (s : Polling ε) :
  s.stop.inFlight = s.inFlight ∧ s.stop.gaveUp = s.gaveUp ∧ s.stop.isPolling = false ∧
    s.stop.generation = s.generation + 1
  := by
  unfold stop
  cases s.timer
  all_goals exact ⟨rfl, rfl, rfl, rfl⟩

theorem count_eq_zero_of_le {g : ℕ} (h : ∀ own ∈ s.inFlight, own ≤ g) :
  s.inFlight.count (g + 1) = 0
  := by
  refine List.count_eq_zero.mpr fun mem => ?_
  exact absurd (h _ mem) (Nat.not_succ_le_self g)

theorem Tidy.stop (h : Tidy s) :
  Sound s.stop
  := by
  obtain ⟨inFlight, gaveUp, polling, generation⟩ := stop_eq s
  constructor
  · refine ⟨fun timer mem => ?_, fun own mem => ?_, fun x mem => ?_, ?_⟩
    · rw [h.pending_stop] at mem
      cases mem
    · rw [inFlight] at mem
      rw [generation]
      exact Nat.le_succ_of_le (h.inFlight own mem)
    · rw [gaveUp] at mem
      rw [generation]
      exact Nat.lt_succ_of_lt (h.gaveUp x mem)
    · rw [gaveUp]
      exact h.once
  · rw [h.pending_stop, inFlight, generation, polling, count_eq_zero_of_le h.inFlight]
    rfl

theorem Sound.begin (h : Sound s) :
  Sound (s.begin o)
  := by
  unfold Polling.begin
  split_ifs with polling
  · exact h
  have none := h.one
  rw [if_neg polling] at none
  have idle : Between { s with isPolling := true, failures := 0, generation := s.generation + 1 } :=
    { timer := fun timer mem => by
        rw [List.eq_nil_of_length_eq_zero (Nat.eq_zero_of_add_eq_zero none).1] at mem
        cases mem
      inFlight := fun own mem => Nat.le_succ_of_le (h.inFlight own mem)
      gaveUp := fun x mem => Nat.lt_succ_of_lt (h.gaveUp x mem)
      once := h.once
      polling := rfl
      pending := List.eq_nil_of_length_eq_zero (Nat.eq_zero_of_add_eq_zero none).1
      settled := count_eq_zero_of_le h.inFlight }
  exact idle.schedule o.intervalMs

/-- A timer that is pending is the only one, and no execution of the generation is in progress. -/
theorem Sound.of_pending (h : Sound s) {timer : PollingTimer} (mem : timer ∈ s.pending) :
  s.isPolling = true ∧ s.pending = [timer] ∧ s.inFlight.count s.generation = 0
  := by
  have one := h.one
  have some := List.length_pos_of_mem mem
  split_ifs at one with polling
  · obtain ⟨only, honly⟩ := List.length_eq_one_iff.mp (by omega : s.pending.length = 1)
    rw [honly, List.mem_singleton] at mem
    exact ⟨polling, by rw [honly, mem], by omega⟩
  · omega

/-- The timer expires. -/
theorem Sound.run (h : Sound s) {timer : PollingTimer} (mem : timer ∈ s.pending) :
  Sound ((s.clearTimeout timer.id).run timer.ownGeneration)
  := by
  obtain ⟨polling, only, none⟩ := h.of_pending mem
  have own := (h.timer timer mem).2
  have cleared : s.pending.filter (·.id ≠ timer.id) = [] := by
    rw [only]
    simp
  constructor
  · refine ⟨fun other left => ?_, fun g mem => ?_, h.gaveUp, h.once⟩
    · change other ∈ s.pending.filter _ at left
      rw [cleared] at left
      cases left
    · rcases List.mem_append.mp mem with mem | mem
      · exact h.inFlight g mem
      · rw [List.mem_singleton.mp mem, own]
        exact Nat.le_refl _
  · change (s.pending.filter _).length +
      (s.inFlight ++ [timer.ownGeneration]).count s.generation = if s.isPolling then 1 else 0
    rw [cleared, List.count_append, none, own, polling, List.count_singleton_self]
    rfl

/-- An execution of an earlier generation settles. -/
theorem Sound.erase (h : Sound s) {own : ℕ} (other : own ≠ s.generation) :
  Sound { s with inFlight := s.inFlight.erase own }
  where
  timer := h.timer
  inFlight g mem := h.inFlight g (List.mem_of_mem_erase mem)
  gaveUp := h.gaveUp
  once := h.once
  one := by
    dsimp only
    rw [List.count_erase_of_ne other.symm]
    exact h.one

/-- The execution of the present generation settles. -/
theorem Sound.settled (h : Sound s) (mem : s.generation ∈ s.inFlight) (failures : ℕ) :
  Between { s with inFlight := s.inFlight.erase s.generation, failures }
  := by
  have one := h.one
  have some := List.count_pos_iff.mpr mem
  split_ifs at one with polling
  · have none : s.pending = [] := List.eq_nil_of_length_eq_zero (by omega)
    refine ⟨⟨h.timer, fun g mem => h.inFlight g (List.mem_of_mem_erase mem), h.gaveUp, h.once⟩,
      polling, none, ?_⟩
    dsimp only
    rw [List.count_erase_self]
    omega
  · omega

/-- The calls of `onGiveUp` are one for each generation that gives up. -/
theorem Between.giveUp (h : Between s) (error : ε) :
  Sound { s.stop with gaveUp := s.gaveUp ++ [(s.generation, error)] }
  := by
  have stopped := h.stop
  obtain ⟨-, -, -, generation⟩ := stop_eq s
  refine ⟨⟨stopped.timer, stopped.inFlight, fun x mem => ?_, ?_⟩, stopped.one⟩
  · dsimp only
    rw [generation]
    rcases List.mem_append.mp mem with mem | mem
    · exact Nat.lt_succ_of_lt (h.gaveUp x mem)
    · rw [List.mem_singleton.mp mem]
      exact Nat.lt_succ_self _
  · dsimp only
    rw [List.map_append, List.nodup_append]
    refine ⟨h.once, List.nodup_singleton _, fun g mem g' mem' => ?_⟩
    obtain ⟨x, hx, rfl⟩ := List.mem_map.mp mem
    rw [List.map_singleton, List.mem_singleton] at mem'
    rw [mem']
    exact Nat.ne_of_lt (h.gaveUp x hx)

/-- What an execution that settles does. -/
inductive Settled (o : PollingOptions) (s : Polling ε) (own : ℕ) (error : Option ε) :
    Polling ε → Prop
  | late : own ≠ s.generation → Settled o s own error { s with inFlight := s.inFlight.erase own }
  | gaveUp (e : ε) :
      own = s.generation → error = some e → o.maxFailures ≤ (s.failures + 1 : ℕ) →
        Settled o s own error
          { ({ s with inFlight := s.inFlight.erase own, failures := s.failures + 1 } :
              Polling ε).stop with gaveUp := s.gaveUp ++ [(own, e)] }
  | again (failures delayMs : ℕ) :
      own = s.generation → (error = none ∧ failures = 0 ∨
        ∃ e, error = some e ∧ failures = s.failures + 1 ∧ ¬o.maxFailures ≤ failures) →
        Settled o s own error
          (({ s with inFlight := s.inFlight.erase own, failures } : Polling ε).schedule delayMs own)

theorem settled_of_step {own : ℕ} {error : Option ε} (h : step o (.settle own error) s = some t) :
  own ∈ s.inFlight ∧ Settled o s own error t
  := by
  rw [step] at h
  split_ifs at h with mem
  obtain rfl := Option.some.inj h
  refine ⟨mem, ?_⟩
  cases error with
  | none =>
    rw [Option.elim_none, succeeded]
    split_ifs with late
    · exact Settled.late late
    · exact Settled.again 0 _ (not_not.mp late) (Or.inl ⟨rfl, rfl⟩)
  | some e =>
    rw [Option.elim_some, failed]
    dsimp only
    split_ifs with late enough
    · exact Settled.late late
    · exact Settled.gaveUp e (not_not.mp late) rfl enough
    · exact Settled.again _ _ (not_not.mp late) (Or.inr ⟨e, rfl, rfl, enough⟩)

/-- What the expiry of a timer does. -/
theorem expired_of_step {id : ℕ} (h : step o (.expire id) s = some t) :
  ∃ timer ∈ s.pending, t = (s.clearTimeout timer.id).run timer.ownGeneration
  := by
  obtain ⟨timer, found, rfl⟩ := Option.map_eq_some_iff.mp h
  refine ⟨timer, List.mem_of_find?_eq_some found, ?_⟩
  have same : timer.id = id := by simpa using List.find?_some found
  rw [same]

theorem Sound.step {a : PollingAction ε} (h : Sound s) (hstep : Polling.step o a s = some t) :
  Sound t
  := by
  cases a with
  | start =>
    obtain rfl := Option.some.inj hstep
    exact h.begin
  | stop =>
    obtain rfl := Option.some.inj hstep
    exact h.stop
  | expire id =>
    obtain ⟨timer, mem, rfl⟩ := expired_of_step (o := o) hstep
    exact h.run mem
  | settle own error =>
    obtain ⟨mem, settled⟩ := settled_of_step hstep
    cases settled with
    | late other => exact h.erase other
    | gaveUp e same =>
      subst same
      exact (h.settled mem _).giveUp e
    | again failures delayMs same =>
      subst same
      exact (h.settled mem failures).schedule delayMs

/-! ### The failures of a generation -/

/-- How an execution of a generation has settled. -/
def outcome (own : ℕ) : PollingAction ε → Option (Option ε)
  | .settle ownGeneration error => if ownGeneration = own then some error else none
  | _ => none

/-- The failures of a generation in a row, up to the end of a history. -/
def failuresInARow (own : ℕ) (h : List (Polling ε × PollingAction ε)) : ℕ :=
  ((h.filterMap fun x => outcome own x.2).takeWhile Option.isSome).length

theorem failuresInARow_other {own : ℕ} {h : List (Polling ε × PollingAction ε)}
    {a : PollingAction ε} (other : outcome own a = none) :
  failuresInARow own ((s, a) :: h) = failuresInARow own h
  := by
  simp only [failuresInARow, List.filterMap_cons, other]

theorem failuresInARow_success (own : ℕ) (h : List (Polling ε × PollingAction ε)) :
  failuresInARow own ((s, .settle own none) :: h) = 0
  := by
  have settled : outcome own (.settle own (none : Option ε)) = some none := if_pos rfl
  simp only [failuresInARow, List.filterMap_cons, settled]
  rfl

theorem failuresInARow_failure (own : ℕ) (e : ε) (h : List (Polling ε × PollingAction ε)) :
  failuresInARow own ((s, .settle own (some e)) :: h) = failuresInARow own h + 1
  := by
  have settled : outcome own (.settle own (some e)) = some (some e) := if_pos rfl
  simp only [failuresInARow, List.filterMap_cons, settled]
  rfl

/-- While it polls, the variable counts the failures of the present generation. -/
structure Counted (h : List (Polling ε × PollingAction ε)) (s : Polling ε) : Prop where
  past : ∀ x ∈ h, ∀ own error, x.2 = .settle own error → own ≤ s.generation
  failures : s.isPolling = true → s.failures = failuresInARow s.generation h

theorem failuresInARow_future {h : List (Polling ε × PollingAction ε)} (counted : Counted h s) :
  failuresInARow (s.generation + 1) h = 0
  := by
  have none : h.filterMap (fun x => outcome (s.generation + 1) x.2) = [] := by
    refine List.filterMap_eq_nil_iff.mpr fun x hx => ?_
    cases ha : x.2 with
    | settle own error => exact if_neg (Nat.ne_of_lt (Nat.lt_succ_of_le (counted.past x hx own _ ha)))
    | _ => rfl
  unfold failuresInARow
  rw [none]
  rfl

/-- A step that goes on to a later generation or stays in the present one. -/
theorem Counted.cons {h : List (Polling ε × PollingAction ε)} (counted : Counted h s)
    {a : PollingAction ε} (later : s.generation ≤ t.generation)
    (settles : ∀ own error, a = .settle own error → own ≤ s.generation)
    (failures : t.isPolling = true → t.failures = failuresInARow t.generation ((s, a) :: h)) :
  Counted ((s, a) :: h) t
  := by
  refine ⟨fun x hx own error ha => ?_, failures⟩
  rcases List.mem_cons.mp hx with rfl | hx
  · exact Nat.le_trans (settles own error ha) later
  · exact Nat.le_trans (counted.past x hx own error ha) later

theorem Counted.step {h : List (Polling ε × PollingAction ε)} (counted : Counted h s)
    (sound : Sound s) {a : PollingAction ε} (hstep : Polling.step o a s = some t) :
  Counted ((s, a) :: h) t
  := by
  cases a with
  | start =>
    obtain rfl := Option.some.inj hstep
    unfold Polling.begin
    split_ifs with polling
    · refine counted.cons (Nat.le_refl _) nofun fun _ => ?_
      rw [failuresInARow_other rfl]
      exact counted.failures polling
    · refine counted.cons (Nat.le_succ _) nofun fun _ => ?_
      change 0 = failuresInARow (s.generation + 1) _
      rw [failuresInARow_other rfl, failuresInARow_future counted]
  | stop =>
    obtain rfl := Option.some.inj hstep
    obtain ⟨-, -, polling, generation⟩ := stop_eq s
    refine counted.cons (generation ▸ Nat.le_succ _) nofun fun polls => ?_
    cases polling.symm.trans polls
  | expire id =>
    obtain ⟨timer, -, rfl⟩ := expired_of_step (o := o) hstep
    refine counted.cons (Nat.le_refl _) nofun fun polls => ?_
    rw [failuresInARow_other rfl]
    exact counted.failures polls
  | settle own error =>
    obtain ⟨mem, settled⟩ := settled_of_step hstep
    have past : ∀ own' error', PollingAction.settle own error = .settle own' error' →
        own' ≤ s.generation := by
      intro own' error' same
      obtain ⟨rfl, -⟩ := PollingAction.settle.inj same
      exact sound.inFlight own mem
    cases settled with
    | late other =>
      refine counted.cons (Nat.le_refl _) past fun polls => ?_
      have skipped : outcome s.generation (.settle own error) = none := if_neg other
      rw [failuresInARow_other skipped]
      exact counted.failures polls
    | gaveUp e same =>
      obtain ⟨-, -, polling, generation⟩ :=
        stop_eq { s with inFlight := s.inFlight.erase own, failures := s.failures + 1 }
      refine counted.cons (generation ▸ Nat.le_succ _) past fun polls => ?_
      cases polling.symm.trans polls
    | again failures delayMs same outcome =>
      subst same
      refine counted.cons (Nat.le_refl _) past fun polls => ?_
      rcases outcome with ⟨rfl, rfl⟩ | ⟨e, rfl, rfl, -⟩
      · exact (failuresInARow_success _ _).symm
      · change s.failures + 1 = failuresInARow s.generation _
        rw [failuresInARow_failure, counted.failures polls]

/-! ### Runs -/

variable {h : List (Polling ε × PollingAction ε)}

theorem sound_of_run (run : (polling ε o).Run h s) :
  Sound s
  := by
  refine run.invariant (fun s hs => ?_) fun a s t sound hstep => sound.step hstep
  rw [show s = {} from hs]
  exact Sound.initial

theorem counted_of_run (run : (polling ε o).Run h s) :
  Counted h s
  := by
  induction run with
  | init hs =>
    rw [show _ = ({} : Polling ε) from hs]
    exact ⟨nofun, nofun⟩
  | step run hstep ih => exact ih.step (sound_of_run run) hstep

/-- The step calls `stop`. -/
def Stops (o : PollingOptions) (s : Polling ε) : PollingAction ε → Prop
  | .stop => True
  | .settle own (some _) => own = s.generation ∧ o.maxFailures ≤ (s.failures + 1 : ℕ)
  | _ => False

/-- The calls of `onGiveUp` if there is one exactly when an execution of the present generation
fails, and with it the failures in a row reach the number. -/
def giveUps (o : PollingOptions) : List (Polling ε × PollingAction ε) → List (ℕ × ε)
  | [] => []
  | (s, .settle own (some error)) :: h =>
      giveUps o h ++
        if own = s.generation ∧
            o.maxFailures ≤ failuresInARow own ((s, .settle own (some error)) :: h) then
          [(own, error)]
        else []
  | _ :: h => giveUps o h

/-- Polling neither overlaps nor goes on when it is stopped: there is one timer and one execution at
most, no execution begins between a stop and the next start, and each generation gives up at most
once, when its failures in a row reach the number. -/
structure Proper (o : PollingOptions) (h : List (Polling ε × PollingAction ε)) (s : Polling ε) :
    Prop where
  timers : ∀ u ∈ Machine.states h s, u.pending.length ≤ 1
  executions : ∀ u ∈ Machine.states h s, u.inFlight.length ≤ 1
  stopped : ∀ later u id between v a earlier,
    h = later ++ (u, .expire id) :: (between ++ (v, a) :: earlier) → Stops o v a →
      ∃ w, (w, PollingAction.start) ∈ between
  once : (s.gaveUp.map Prod.fst).Nodup
  gaveUp : s.gaveUp = giveUps o h

/-- When a timer expires, the executions of earlier generations have settled. -/
def Clear (s : Polling ε) : PollingAction ε → Prop
  | .expire _ => ∀ own ∈ s.inFlight, own = s.generation
  | _ => True

theorem gaveUp_eq_giveUps (run : (polling ε o).Run h s) :
  s.gaveUp = giveUps o h
  := by
  induction run with
  | init hs =>
    rw [show _ = ({} : Polling ε) from hs]
    rfl
  | @step h s t a run hstep ih =>
    have sound := sound_of_run run
    cases a with
    | start =>
      obtain rfl := Option.some.inj hstep
      rw [giveUps.eq_3 _ _ _ nofun, ← ih]
      unfold Polling.begin
      split_ifs
      all_goals rfl
    | stop =>
      obtain rfl := Option.some.inj hstep
      rw [(stop_eq s).2.1, ih]
      rfl
    | expire id =>
      obtain ⟨timer, -, rfl⟩ := expired_of_step (o := o) hstep
      exact ih
    | settle own error =>
      obtain ⟨mem, settled⟩ := settled_of_step hstep
      cases settled with
      | late other =>
        cases error with
        | none => exact ih
        | some e => rw [giveUps, if_neg fun both => other both.1, List.append_nil, ← ih]
      | gaveUp e same error enough =>
        subst same error
        have polls := (sound.settled mem 0).polling
        have row : failuresInARow s.generation ((s, .settle s.generation (some e)) :: h) =
            s.failures + 1 := by
          rw [failuresInARow_failure, (counted_of_run run).failures polls]
        rw [giveUps, row, if_pos ⟨rfl, enough⟩, ← ih]
      | again failures delayMs same outcome =>
        subst same
        rcases outcome with ⟨rfl, rfl⟩ | ⟨e, rfl, rfl, few⟩
        · exact ih
        · have polls := (sound.settled mem 0).polling
          have row : failuresInARow s.generation ((s, .settle s.generation (some e)) :: h) =
              s.failures + 1 := by
            rw [failuresInARow_failure, (counted_of_run run).failures polls]
          rw [giveUps, row, if_neg fun both => few both.2, List.append_nil, ← ih]
          rfl

/-! ### After a stop -/

theorem not_polling_of_stops {a : PollingAction ε} (stops : Stops o s a)
    (hstep : step o a s = some t) :
  t.isPolling = false
  := by
  cases a with
  | start => cases stops
  | expire id => cases stops
  | stop =>
    obtain rfl := Option.some.inj hstep
    exact (stop_eq s).2.2.1
  | settle own error =>
    obtain ⟨-, settled⟩ := settled_of_step hstep
    cases error with
    | none => cases stops
    | some e =>
      cases settled with
      | late other => exact absurd stops.1 other
      | gaveUp e' =>
        exact (stop_eq { s with inFlight := s.inFlight.erase own, failures := s.failures + 1 }).2.2.1
      | again failures delayMs same outcome =>
        rcases outcome with ⟨none, -⟩ | ⟨e', -, rfl, few⟩
        · cases none
        · exact absurd stops.2 few

/-- Only a start makes it poll. -/
theorem not_polling_of_step {a : PollingAction ε} (idle : s.isPolling = false)
    (other : a ≠ .start) (hstep : step o a s = some t) :
  t.isPolling = false
  := by
  cases a with
  | start => exact absurd rfl other
  | stop =>
    obtain rfl := Option.some.inj hstep
    exact (stop_eq s).2.2.1
  | expire id =>
    obtain ⟨timer, -, rfl⟩ := expired_of_step (o := o) hstep
    exact idle
  | settle own error =>
    obtain ⟨-, settled⟩ := settled_of_step hstep
    cases settled with
    | late => exact idle
    | gaveUp e =>
      exact (stop_eq { s with inFlight := s.inFlight.erase own, failures := s.failures + 1 }).2.2.1
    | again => exact idle

theorem not_polling_of_run {between earlier : List (Polling ε × PollingAction ε)} {v : Polling ε}
    {a : PollingAction ε} (run : (polling ε o).Run (between ++ (v, a) :: earlier) s)
    (stops : Stops o v a) (none : ∀ w, (w, PollingAction.start) ∉ between) :
  s.isPolling = false
  := by
  induction between generalizing s with
  | nil =>
    cases run with
    | step run hstep => exact not_polling_of_stops stops hstep
  | cons x between ih =>
    cases run with
    | @step _ u _ b run hstep =>
      have idle := ih run fun w mem => none w (List.mem_cons_of_mem _ mem)
      refine not_polling_of_step idle ?_ hstep
      rintro rfl
      exact none u List.mem_cons_self

/-- A timer expires only while it polls. -/
theorem polling_of_expired {later rest : List (Polling ε × PollingAction ε)} {u : Polling ε}
    {id : ℕ} (run : (polling ε o).Run (later ++ (u, .expire id) :: rest) s) :
  (polling ε o).Run rest u ∧ u.isPolling = true
  := by
  induction later generalizing s with
  | nil =>
    cases run with
    | step run hstep =>
      obtain ⟨timer, mem, -⟩ := expired_of_step (o := o) hstep
      exact ⟨run, ((sound_of_run run).of_pending mem).1⟩
  | cons x later ih =>
    cases run with
    | step run _ => exact ih run

/-! ### Executions at a time -/

theorem length_inFlight_iff {a : PollingAction ε} (sound : Sound s) (one : s.inFlight.length ≤ 1)
    (hstep : step o a s = some t) :
  t.inFlight.length ≤ 1 ↔ s.Clear a
  := by
  cases a with
  | start =>
    obtain rfl := Option.some.inj hstep
    refine iff_of_true ?_ trivial
    unfold Polling.begin
    split_ifs
    all_goals exact one
  | stop =>
    obtain rfl := Option.some.inj hstep
    exact iff_of_true ((stop_eq s).1 ▸ one) trivial
  | expire id =>
    obtain ⟨timer, mem, rfl⟩ := expired_of_step (o := o) hstep
    have none := List.count_eq_zero.mp (sound.of_pending mem).2.2
    have longer : ((s.clearTimeout timer.id).run timer.ownGeneration).inFlight.length =
        s.inFlight.length + 1 := List.length_append
    rw [longer]
    constructor
    · intro le own hown
      rw [List.eq_nil_of_length_eq_zero (by omega : s.inFlight.length = 0)] at hown
      cases hown
    · intro clear
      have empty : s.inFlight = [] := by
        refine List.eq_nil_iff_forall_not_mem.mpr fun own hown => none ?_
        rwa [← clear own hown]
      rw [empty]
      exact Nat.le_refl _
  | settle own error =>
    obtain ⟨-, settled⟩ := settled_of_step hstep
    have fewer : (s.inFlight.erase own).length ≤ 1 := Nat.le_trans List.erase_sublist.length_le one
    refine iff_of_true ?_ trivial
    cases settled with
    | late => exact fewer
    | gaveUp e =>
      rw [(stop_eq _).1]
      exact fewer
    | again => exact fewer

/-- Along a run, polling is proper exactly if each timer expires after the executions of earlier
generations have settled. -/
theorem proper_iff (run : (polling ε o).Run h s) :
  Proper o h s ↔ ∀ x ∈ h, x.1.Clear x.2
  := by
  have initial : ∀ s, (polling ε o).init s → Sound s ∧ s.inFlight.length ≤ 1 := by
    rintro s rfl
    exact ⟨Sound.initial, Nat.zero_le 1⟩
  have executions := run.forall_states_iff (P := fun u => u.inFlight.length ≤ 1) initial
    (fun a s t sound hstep => sound.step hstep)
    fun a s t sound one hstep => length_inFlight_iff sound one hstep
  rw [← executions]
  refine ⟨Proper.executions, fun one => ⟨fun u hu => ?_, one, ?_, ?_, gaveUp_eq_giveUps run⟩⟩
  · have sound := run.forall_states (fun s hs => (initial s hs).1)
      (fun a s t sound hstep => sound.step hstep) u hu
    have bound := sound.one
    split_ifs at bound <;> omega
  · rintro later u id between v a earlier rfl stops
    by_contra none
    obtain ⟨before, polls⟩ := polling_of_expired run
    have idle := not_polling_of_run before stops (not_exists.mp none)
    cases idle.symm.trans polls
  · exact (sound_of_run run).once

instance (s : Polling ε) (a : PollingAction ε) : Decidable (s.Clear a) :=
  match a with
  | .expire _ => inferInstanceAs (Decidable (∀ own ∈ s.inFlight, own = s.generation))
  | .start => .isTrue trivial
  | .stop => .isTrue trivial
  | .settle _ _ => .isTrue trivial

/-- A run that gives up after a success and two failures, and starts again. -/
theorem proper_two_failures :
  ∃ h s, (polling Unit ⟨1000, none, 2⟩).Run h s ∧ s.gaveUp = [(1, ())] ∧ s.inFlight = [3] ∧
    Proper ⟨1000, none, 2⟩ h s
  := by
  obtain ⟨h, s, run, clear, reached⟩ := (polling Unit ⟨1000, none, 2⟩).exists_run_of_execWhile
    [.start, .expire 0, .settle 1 none, .expire 1, .settle 1 (some ()), .expire 2,
      .settle 1 (some ()), .start, .expire 3]
    (fun s a => decide (s.Clear a)) (fun s => s.gaveUp = [(1, ())] && s.inFlight = [3]) rfl rfl
  simp only [Bool.and_eq_true, decide_eq_true_eq] at reached
  refine ⟨h, s, run, reached.1, reached.2, (proper_iff run).mpr fun x hx => ?_⟩
  exact of_decide_eq_true (clear x hx)

/-- It is stopped and started again while an execution is in progress, and the timer expires before
that has settled. -/
theorem executions_overlap :
  ∃ h s, (polling Unit ⟨1000, none, 5⟩).Run h s ∧ s.inFlight = [1, 3] ∧
    ¬Proper ⟨1000, none, 5⟩ h s
  := by
  obtain ⟨h, s, run, reached⟩ := (polling Unit ⟨1000, none, 5⟩).exists_run_of_exec
    [.start, .expire 0, .stop, .start, .expire 1] (fun s => s.inFlight = [1, 3]) rfl rfl
  have two := of_decide_eq_true reached
  refine ⟨h, s, run, two, fun proper => ?_⟩
  have one := proper.executions s List.mem_cons_self
  rw [two] at one
  exact absurd one (by decide)

end Polling

end Lumina.Frontend
