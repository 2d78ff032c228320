import Lumina.Knowledge.Upkeep

/-!
# The end of a reindex job

A round looks at the status of its job once, when it begins, and a rescue when it selects the jobs;
what they write later is an update by the id of the job alone.  So a job stays as it has ended
exactly if every status is written while the job is still an active one, or is the status that
it has already.
-/

namespace Lumina.Knowledge

open Transition

namespace Upkeep

/-- What an action writes into the rows of the jobs. -/
def writes (cfg : Settings) (s : Upkeep) : UpkeepAction → List (JobId × JobUpdate)
  | .system a =>
      match a.commit? cfg s.world with
      | none => []
      | some t => t.jobWrites s.db
  | .conclude i =>
      match s.scans[i]? with
      | none => []
      | some scan => scan.writes
  | _ => []

/-- The job that an action switches for, if it does. -/
def switchedJob (cfg : Settings) (s : Upkeep) : UpkeepAction → Option KbReindexJob
  | .system a => (a.commit? cfg s.world).bind (·.switches s.db)
  | _ => none

/-- The jobs that have ended by the first state have the same status in the second one. -/
def StayEnded (s t : Upkeep) : Prop :=
  ∀ id job, KbReindexJobRepository.getById s.db id = some job →
    KbReindexService.isTerminal job.status →
      ∃ job', KbReindexJobRepository.getById t.db id = some job' ∧ job'.status = job.status

theorem StayEnded.refl (s : Upkeep) : StayEnded s s :=
  fun _ job hjob _ => ⟨job, hjob, rfl⟩

theorem StayEnded.trans {s t u : Upkeep} (h : StayEnded s t) (h' : StayEnded t u) :
  StayEnded s u
  := by
  intro id job hjob ended
  obtain ⟨job', hjob', status⟩ := h id job hjob ended
  obtain ⟨job'', hjob'', status'⟩ := h' id job' hjob' (status ▸ ended)
  exact ⟨job'', hjob'', status'.trans status⟩

/-- If the action is a switch, its job has not failed. -/
def NoFailedSwitch (cfg : Settings) (s : Upkeep) (a : UpkeepAction) : Prop :=
  ∀ job, switchedJob cfg s a = some job →
    ∀ row, KbReindexJobRepository.getById s.db job.id = some row → row.status ≠ .failed

/-- Every status that the action writes finds the job active, or is the status that it has. -/
def WritesActive (cfg : Settings) (s : Upkeep) (a : UpkeepAction) : Prop :=
  ∀ w ∈ writes cfg s a, ∀ status, w.2.status = some status →
    ∀ row, KbReindexJobRepository.getById s.db w.1 = some row →
      row.status ∈ reindexActiveStatuses ∨ row.status = status

/-! ### One step -/

/-- An action writes one status at most. -/
theorem writes_status {cfg : Settings} {s : Upkeep} {a : UpkeepAction} :
  ∀ w ∈ writes cfg s a, ∀ w' ∈ writes cfg s a, ∀ status status', w.2.status = some status →
    w'.2.status = some status' → status' = status
  := by
  intro w hw w' hw' status status' h h'
  cases a with
  | system a =>
    simp only [writes] at hw hw'
    split at hw
    · cases hw
    next t hcommit =>
      rw [hcommit] at hw'
      apply jobWrites_status w hw w' hw' status status' h h'
  | conclude i =>
    simp only [writes] at hw hw'
    split at hw
    · cases hw
    next scan hscan =>
      rw [hscan] at hw'
      obtain ⟨_, -, rfl⟩ := List.mem_map.mp hw
      obtain ⟨_, -, rfl⟩ := List.mem_map.mp hw'
      cases h
      cases h'
      rfl
  | _ => cases hw

section

variable {cfg : Settings} {us : UpkeepSettings} {s t : Upkeep} {a : UpkeepAction}

/-- The rows of the jobs after a step. -/
theorem step_jobs (h : (upkeep cfg us).step a s = some t) :
  ∃ new, t.db.reindexJobs = writeJobs (writes cfg s a) s.db.reindexJobs ++ new
  := by
  obtain ⟨a', w, rfl, hsystem, rfl⟩ | ⟨cutoff, rfl, rfl⟩ | ⟨i, scan, rfl, hscan, rfl⟩ |
    ⟨scans, rfl, hsystem, hpurge, hconclude⟩ := step_cases h
  · have hdb : (s.after cfg a' w).db = w.shared.db := by rw [db, after_world]
    rw [hdb]
    simp only [writes]
    cases hcommit : a'.commit? cfg s.world with
    | none =>
      obtain same | ⟨tx, commits⟩ := step_db hsystem
      · rw [same]
        exact ⟨[], (List.append_nil _).symm⟩
      · rw [commit?_eq_some.mpr ⟨_, commits⟩] at hcommit
        cases hcommit
    | some tx =>
      obtain ⟨db, commits⟩ := commit?_eq_some.mp hcommit
      obtain ⟨r, hr⟩ := commits.commit
      obtain ⟨new, hnew, -⟩ := transact_jobs hr
      rw [commits.step hsystem]
      exact ⟨new, hnew⟩
  · rw [purgeSwitched_db]
    exact ⟨[], (List.append_nil _).symm⟩
  · simp only [writes, hscan]
    exact ⟨[], (List.append_nil _).symm⟩
  · use []
    cases a with
    | system a' => exact absurd rfl (hsystem a')
    | purge cutoff => exact absurd rfl (hpurge cutoff)
    | conclude i => exact absurd rfl (hconclude i)
    | _ =>
      rw [List.append_nil]
      rfl

/-- A job after a step. -/
theorem getById_step (h : (upkeep cfg us).step a s = some t) {id : JobId} {job : KbReindexJob}
    (hjob : KbReindexJobRepository.getById s.db id = some job) :
  KbReindexJobRepository.getById t.db id = some (rewritten (writes cfg s a) job)
  := by
  obtain ⟨new, hnew⟩ := step_jobs h
  unfold KbReindexJobRepository.getById at hjob ⊢
  rw [hnew, List.find?_append, find?_writeJobs, hjob]
  rfl

theorem active_or_ended (status : ReindexStatus) :
  status ∈ reindexActiveStatuses ∨ KbReindexService.isTerminal status
  := by
  cases status
  all_goals decide

theorem not_active_of_ended {status : ReindexStatus} (h : KbReindexService.isTerminal status) :
  status ∉ reindexActiveStatuses
  := by
  cases status
  all_goals revert h; decide

/-- A step leaves the ended jobs as they are exactly if what it writes finds active jobs, or says
the same. -/
theorem stayEnded_iff (h : (upkeep cfg us).step a s = some t) :
  StayEnded s t ↔ WritesActive cfg s a
  := by
  constructor
  · intro stay w hw status hstatus row hrow
    obtain active | ended := active_or_ended row.status
    · left
      apply active
    · right
      obtain ⟨row', hrow', same⟩ := stay w.1 row hrow ended
      rw [getById_step h hrow] at hrow'
      cases hrow'
      rw [← same]
      apply status_rewritten_of_written
      · intro w' hw' other hother
        apply writes_status w hw w' hw' status other hstatus hother
      · right
        refine ⟨w, hw, ?_, hstatus⟩
        have hid := List.find?_some hrow
        exact (of_decide_eq_true hid).symm
  · intro writes id job hjob ended
    refine ⟨_, getById_step h hjob, ?_⟩
    apply status_rewritten_of_same
    intro w hw hid status hstatus
    have hid' : job.id = id := by
      have found := List.find?_some hjob
      exact of_decide_eq_true found
    rw [← hid', ← hid] at hjob
    obtain active | same := writes w hw status hstatus job hjob
    · exact absurd active (not_active_of_ended ended)
    · apply same

/-- A switch that finds an active job, or one that is completed, is not that of a failed job. -/
theorem noFailedSwitch_of_writesActive (h : WritesActive cfg s a) : NoFailedSwitch cfg s a := by
  intro job hswitch row hrow failed
  cases a with
  | system a =>
    obtain ⟨t, hcommit, hswitch⟩ := Option.bind_eq_some_iff.mp hswitch
    unfold Tx.switches at hswitch
    split at hswitch
    next job' model =>
      split at hswitch
      next ready =>
        cases hswitch
        have hw : (job.id, { status := some ReindexStatus.completed }) ∈
            writes cfg s (.system a) := by
          simp only [writes, hcommit, Tx.jobWrites, ready, if_true]
          apply List.mem_cons_of_mem _ List.mem_cons_self
        obtain active | same := h _ hw .completed rfl row hrow
        · rw [failed] at active
          revert active
          decide
        · rw [failed] at same
          cases same
      next => cases hswitch
    next => cases hswitch
  | _ => cases hswitch

end

/-- A job of an empty knowledge base is about to close its first round. -/
def openRound : List UpkeepAction :=
  (requests 0 2 (.startReindex 1 none (some false)) ++ .deliver 0 0 :: works 0 4).map .system

/-- A job comes to a standstill and is given up; the task that it had is delivered again. -/
def rescuedSample : List UpkeepAction :=
  openRound ++ .system (.crash 0) :: .system (.tick 101) :: .scan 1 :: .conclude 0 ::
    (Action.deliver 0 0 :: works 1 1 ++ [Action.finish 1, Action.finish 0]).map .system

/-- A job is given up in the middle of a round. -/
def rescueMidRound : List UpkeepAction :=
  openRound ++ [.system (.tick 101), .scan 1, .conclude 0]

end Upkeep

end Lumina.Knowledge
