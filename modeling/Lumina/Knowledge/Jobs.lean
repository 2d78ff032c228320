import Lumina.Knowledge.Effects

/-!
# What a transaction does to the jobs

`transact_jobs` says once, for all transactions, what a committed one has done to the rows of the
reindex jobs: it has made some writes, each by the id of a job, and it may have added a new job.
-/

namespace Lumina.Knowledge

open Fallible (ok_of_bind)

/-! ### The writes of the job rows -/

/-- What a transaction writes into the rows of the jobs, in order. -/
def Tx.jobWrites (db : Db) : Tx → List (JobId × JobUpdate)
  | .updateReindexJob job u => [(job, u)]
  | .enterEmbedding job =>
      if DocumentRepository.countInStatusesForKb db job.kbId stillProcessingStatuses ≠ 0 then
        [(job.id, {})]
      else
        [(job.id,
          { status := some .embedding
            totalChunks := some (ChunkRepository.countActiveForKb db job.kbId) })]
  | .upsertForJob job _ reported =>
      if reported ≠ "" ∧ reported ≠ job.targetModel then
        [(job.id, { targetModel := some reported })]
      else []
  | .closeRound job model =>
      let progress := roundProgress db job model
      (job.id,
          { totalChunks := some progress.totalChunks
            embeddedChunks := some progress.embeddedChunks }) ::
        if readyToSwitch .embedding progress then [(job.id, { status := some .completed })] else []
  | _ => []

/-- The job that a transaction switches for, if it does. -/
def Tx.switches (db : Db) : Tx → Option KbReindexJob
  | .closeRound job model =>
      if readyToSwitch .embedding (roundProgress db job model) then some job else none
  | _ => none

/-- The rows of the jobs after some writes. -/
def writeJobs (writes : List (JobId × JobUpdate)) (rows : List KbReindexJob) :
    List KbReindexJob :=
  writes.foldl (fun rows w => Table.update (·.id = w.1) (KbReindexJobRepository.apply w.2) rows)
    rows

/-- Rows that nothing is written into. -/
theorem writeJobs_none {writes : List (JobId × JobUpdate)} {rows rows' : List KbReindexJob} {n : ℕ}
    (unwritten : writes = []) (same : rows' = rows) :
  ∃ new, rows' = writeJobs writes rows ++ new ∧
    ∀ job ∈ new, job.id = n ∧ job.status = .pending ∧ job.rechunkCursor = none
  := by
  use []
  rw [unwritten, same, List.append_nil]
  exact ⟨rfl, nofun⟩

/-- The rows of the jobs after a transaction: its writes, and a new job at the end. -/
theorem transact_jobs {cfg : Settings} {now : ℕ} {db db' : Db} {t : Tx} {r : t.Reply}
    (h : transact cfg now t db = .ok (r, db')) :
  ∃ new, db'.reindexJobs = writeJobs (t.jobWrites db) db.reindexJobs ++ new ∧
    ∀ job ∈ new, job.id = db.reindexJobs.length ∧ job.status = .pending ∧
      job.rechunkCursor = none
  := by
  cases t with
  | updateReindexJob job u =>
    cases h
    exact ⟨[], (List.append_nil _).symm, nofun⟩
  | enterEmbedding job =>
    have hdb : enterEmbedding db job = (r, db') := Except.ok.inj h
    refine ⟨[], ?_, nofun⟩
    unfold enterEmbedding at hdb
    simp only [Tx.jobWrites, List.append_nil]
    split at hdb
    next busy =>
      cases hdb
      rw [if_pos busy]
      rfl
    next free =>
      cases hdb
      rw [if_neg free]
      rfl
  | upsertForJob job chunks reported =>
    obtain ⟨⟨n, stored⟩, hupsert, h⟩ := ok_of_bind h
    obtain ⟨-, -, hstored⟩ := upsert_ok hupsert
    refine ⟨[], ?_, nofun⟩
    dsimp only at h
    simp only [Tx.jobWrites, List.append_nil]
    split at h
    next renamed =>
      obtain ⟨_, -, h⟩ := ok_of_bind h
      cases h
      rw [if_pos renamed, hstored]
      rfl
    next same =>
      cases h
      rw [if_neg same, hstored]
      rfl
  | closeRound job model =>
    cases h
    refine ⟨[], ?_, nofun⟩
    unfold closeRound
    simp only [Tx.jobWrites, List.append_nil]
    split
    all_goals rfl
  | startReindex kb targetModel rechunk =>
    obtain ⟨row, -, h⟩ := ok_of_bind h
    split at h
    · cases h
    · split_ifs at h
      cases h
      refine ⟨[_], rfl, ?_⟩
      intro job hjob
      rw [List.mem_singleton.mp hjob]
      exact ⟨rfl, rfl, rfl⟩
  | replaceForVersion document kb docVersion rows =>
    have hreplace : ChunkRepository.replaceForVersion document kb docVersion rows db =
        .ok (r, db') := h
    unfold ChunkRepository.replaceForVersion at hreplace
    split_ifs at hreplace
    cases hreplace
    apply writeJobs_none rfl rfl
  | createDocument id kb mediaType contentHash =>
    obtain ⟨stored, hcreate, h⟩ := ok_of_bind h
    cases h
    unfold createDocument DocumentRepository.create at hcreate
    split_ifs at hcreate
    cases hcreate
    apply writeJobs_none rfl rfl
  | reingest document staleBefore =>
    obtain ⟨d, -, h⟩ := ok_of_bind h
    split_ifs at h
    cases h
    apply writeJobs_none rfl rfl
  | delete document =>
    obtain ⟨stored, hdelete, h⟩ := ok_of_bind h
    obtain ⟨d, -, hdelete⟩ := ok_of_bind hdelete
    cases hdelete
    cases h
    apply writeJobs_none rfl rfl
  | upsert chunks model embeddingVersion =>
    obtain ⟨-, -, rfl⟩ := upsert_ok h
    apply writeJobs_none rfl rfl
  | loadIngestTarget _ | loadEmbedTarget _ | checkUpload _ _ | loadReindexJob _ =>
    obtain ⟨_, -, h⟩ := ok_of_bind h
    cases h
    apply writeJobs_none rfl rfl
  | _ =>
    cases h
    apply writeJobs_none rfl rfl

/-! ### The rows after some writes -/

/-- A job after the writes that are for it. -/
def rewritten (writes : List (JobId × JobUpdate)) (job : KbReindexJob) : KbReindexJob :=
  writes.foldl (fun row w => if w.1 = job.id then KbReindexJobRepository.apply w.2 row else row)
    job

theorem rewritten_cons (w : JobId × JobUpdate) (writes : List (JobId × JobUpdate))
    (job : KbReindexJob) :
  rewritten (w :: writes) job =
    rewritten writes (if w.1 = job.id then KbReindexJobRepository.apply w.2 job else job)
  := by
  unfold rewritten
  rw [List.foldl_cons]
  split
  all_goals rfl

theorem find?_writeJobs (writes : List (JobId × JobUpdate)) (rows : List KbReindexJob)
    (id : JobId) :
  (writeJobs writes rows).find? (·.id = id) = (rows.find? (·.id = id)).map (rewritten writes)
  := by
  induction writes generalizing rows with
  | nil =>
    unfold writeJobs rewritten
    simp only [List.foldl_nil, Option.map_id_fun', id_eq]
  | cons w writes ih =>
    have tail : writeJobs (w :: writes) rows =
        writeJobs writes
          (Table.update (·.id = w.1) (KbReindexJobRepository.apply w.2) rows) := rfl
    rw [tail, ih, Table.find?_update]
    · rw [Option.map_map]
      congr 1
      funext job
      rw [Function.comp_apply, rewritten_cons]
      by_cases hid : job.id = w.1
      · rw [if_pos (decide_eq_true hid), if_pos hid.symm]
      · rw [if_neg fun h => hid (of_decide_eq_true h), if_neg fun h => hid h.symm]
    · exact fun _ => rfl

/-- A column that no update writes. -/
theorem rewritten_same {τ : Type} (f : KbReindexJob → τ)
    (hf : ∀ u job, f (KbReindexJobRepository.apply u job) = f job)
    (writes : List (JobId × JobUpdate)) (job : KbReindexJob) :
  f (rewritten writes job) = f job
  := by
  induction writes generalizing job with
  | nil => rfl
  | cons w writes ih =>
    rw [rewritten_cons, ih]
    split
    · apply hf
    · rfl

/-- The jobs that were there are there after a transaction, as it has written them. -/
theorem getById_transact {cfg : Settings} {now : ℕ} {db db' : Db} {t : Tx} {r : t.Reply}
    (h : transact cfg now t db = .ok (r, db')) {id : JobId} {job : KbReindexJob}
    (hjob : KbReindexJobRepository.getById db id = some job) :
  KbReindexJobRepository.getById db' id = some (rewritten (t.jobWrites db) job)
  := by
  obtain ⟨new, hnew, -⟩ := transact_jobs h
  unfold KbReindexJobRepository.getById at hjob ⊢
  rw [hnew, List.find?_append, find?_writeJobs, hjob]
  rfl

/-- A job after a transaction was there before, or has not begun. -/
theorem getById_transact_cases {cfg : Settings} {now : ℕ} {db db' : Db} {t : Tx} {r : t.Reply}
    (h : transact cfg now t db = .ok (r, db')) {id : JobId} {job : KbReindexJob}
    (hjob : KbReindexJobRepository.getById db' id = some job) :
  (∃ old, KbReindexJobRepository.getById db id = some old ∧
      job = rewritten (t.jobWrites db) old) ∨
    (job.status = .pending ∧ job.rechunkCursor = none)
  := by
  cases hold : KbReindexJobRepository.getById db id with
  | some old =>
    left
    rw [getById_transact h hold] at hjob
    cases hjob
    exact ⟨old, rfl, rfl⟩
  | none =>
    right
    obtain ⟨new, hnew, pending⟩ := transact_jobs h
    unfold KbReindexJobRepository.getById at hjob hold
    rw [hnew, List.find?_append, find?_writeJobs, hold] at hjob
    apply (pending job (List.mem_of_find?_eq_some hjob)).2

/-- A status that a job has not, and that is not written, it has not afterwards. -/
theorem status_rewritten_ne {writes : List (JobId × JobUpdate)} {job : KbReindexJob}
    {status : ReindexStatus} (h : ∀ w ∈ writes, w.2.status ≠ some status)
    (hjob : job.status ≠ status) :
  (rewritten writes job).status ≠ status
  := by
  induction writes generalizing job with
  | nil => apply hjob
  | cons w writes ih =>
    rw [rewritten_cons]
    apply ih fun w' hw' => h w' (List.mem_cons_of_mem _ hw')
    split
    · unfold KbReindexJobRepository.apply
      dsimp only
      cases hstatus : w.2.status with
      | none => apply hjob
      | some other =>
        intro same
        apply h w List.mem_cons_self
        rw [hstatus, ← same]
        rfl
    · apply hjob

/-- Writes of the status that a job has leave the status as it is. -/
theorem status_rewritten_of_same {writes : List (JobId × JobUpdate)} {job : KbReindexJob}
    (h : ∀ w ∈ writes, w.1 = job.id → ∀ status, w.2.status = some status → job.status = status) :
  (rewritten writes job).status = job.status
  := by
  induction writes generalizing job with
  | nil => rfl
  | cons w writes ih =>
    have head := h w List.mem_cons_self
    have tail := fun w' hw' => h w' (List.mem_cons_of_mem _ hw')
    rw [rewritten_cons]
    split
    next hid =>
      have same : (KbReindexJobRepository.apply w.2 job).status = job.status := by
        unfold KbReindexJobRepository.apply
        dsimp only
        cases hstatus : w.2.status with
        | none => rfl
        | some status => apply (head hid status hstatus).symm
      rw [ih, same]
      intro w' hw' hid' status hstatus
      rw [same]
      apply tail w' hw' hid' status hstatus
    next => apply ih tail

/-- If only one status is written, and it is, the job has it afterwards. -/
theorem status_rewritten_of_written {writes : List (JobId × JobUpdate)} {job : KbReindexJob}
    {status : ReindexStatus}
    (only : ∀ w ∈ writes, ∀ other, w.2.status = some other → other = status)
    (written : job.status = status ∨
      ∃ w ∈ writes, w.1 = job.id ∧ w.2.status = some status) :
  (rewritten writes job).status = status
  := by
  induction writes generalizing job with
  | nil =>
    obtain same | ⟨w, hw, -⟩ := written
    · apply same
    · cases hw
  | cons w writes ih =>
    have tail := fun w' hw' => only w' (List.mem_cons_of_mem _ hw')
    rw [rewritten_cons]
    split
    next hid =>
      apply ih tail
      unfold KbReindexJobRepository.apply
      dsimp only
      cases hstatus : w.2.status with
      | some other =>
        left
        apply only w List.mem_cons_self other hstatus
      | none =>
        obtain same | ⟨w', hw', hid', hwritten⟩ := written
        · left
          apply same
        · obtain rfl | hw' := List.mem_cons.mp hw'
          · rw [hstatus] at hwritten
            cases hwritten
          · right
            exact ⟨w', hw', hid', hwritten⟩
    next hid =>
      apply ih tail
      obtain same | ⟨w', hw', hid', hwritten⟩ := written
      · left
        apply same
      · obtain rfl | hw' := List.mem_cons.mp hw'
        · exact absurd hid' hid
        · right
          exact ⟨w', hw', hid', hwritten⟩

/-- A transaction writes one status at most. -/
theorem jobWrites_status {db : Db} {t : Tx} :
  ∀ w ∈ t.jobWrites db, ∀ w' ∈ t.jobWrites db, ∀ status status', w.2.status = some status →
    w'.2.status = some status' → status' = status
  := by
  intro w hw w' hw' status status' h h'
  cases t with
  | updateReindexJob job u =>
    rw [List.mem_singleton.mp hw] at h
    rw [List.mem_singleton.mp hw'] at h'
    cases h.symm.trans h'
    rfl
  | enterEmbedding job =>
    simp only [Tx.jobWrites] at hw hw'
    split at hw
    · rw [List.mem_singleton.mp hw] at h
      cases h
    next free =>
      rw [if_neg free] at hw'
      rw [List.mem_singleton.mp hw] at h
      rw [List.mem_singleton.mp hw'] at h'
      cases h
      cases h'
      rfl
  | upsertForJob job chunks reported =>
    simp only [Tx.jobWrites] at hw
    split at hw
    · rw [List.mem_singleton.mp hw] at h
      cases h
    · cases hw
  | closeRound job model =>
    simp only [Tx.jobWrites] at hw hw'
    have completed : ∀ w ∈ (job.id,
          { totalChunks := some (roundProgress db job model).totalChunks
            embeddedChunks := some (roundProgress db job model).embeddedChunks }) ::
        (if readyToSwitch .embedding (roundProgress db job model) then
          [(job.id, ({ status := some .completed } : JobUpdate))] else []),
        ∀ status, w.2.status = some status → status = .completed := by
      intro w hw status h
      obtain rfl | hw := List.mem_cons.mp hw
      · cases h
      · split at hw
        · rw [List.mem_singleton.mp hw] at h
          cases h
          rfl
        · cases hw
    rw [completed w hw status h, completed w' hw' status' h']
  | _ => cases hw

end Lumina.Knowledge
