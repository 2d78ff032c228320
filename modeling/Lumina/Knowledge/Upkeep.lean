import Lumina.Knowledge.Jobs
import Lumina.Knowledge.WellFormed

/-!
# The upkeep of the reindex jobs

Two scans look after the jobs of a tenant.  `purgeSwitched` deletes the old embeddings of the
knowledge bases whose jobs have switched long enough ago; the rescue sends the jobs again that
have not begun, and gives up those that have come to a standstill.  Both go by time stamps of the
jobs, which the services of the system write and never read; they are kept beside the rows.

The purge is one transaction.  So is the rescue, but what it writes depends on nothing but what it
has read, and other transactions may commit in between; it is taken in two steps.
-/

namespace Lumina.Knowledge

open Interleaving Transition

/-! ### The transaction of an action -/

/-- The transaction that an action commits, if it does. -/
def Action.commit? (cfg : Settings) : Action → World → Option Tx
  | .work i .done, w =>
      match w.running[i]? with
      | some { code := .call (.tx t) _, .. } =>
          match transact cfg w.shared.now t w.shared.db with
          | .ok _ => some t
          | .error _ => none
      | _ => none
  | _, _ => none

theorem commit?_eq_some {cfg : Settings} {a : Action} {w : World} {t : Tx} :
  a.commit? cfg w = some t ↔ ∃ db, Commits cfg w a t db
  := by
  constructor
  · intro h
    unfold Action.commit? at h
    split at h
    next i =>
      split at h
      next t' next message hactivity =>
        split at h
        next r hcommit =>
          cases h
          refine ⟨r.2, ?_, ⟨i, rfl⟩, r.1, hcommit⟩
          simp only [Action.operation, hactivity]
        next => cases h
      next => cases h
    next => cases h
  · rintro ⟨db, hop, ⟨i, rfl⟩, r, hcommit⟩
    simp only [Action.operation] at hop
    split at hop
    next op next message hactivity =>
      cases hop
      simp only [Action.commit?, hactivity, hcommit]
    next => cases hop

/-! ### The two scans -/

/-- The time stamps of a job. -/
structure JobStamps where
  updatedAt : ℕ := 0
  switchedAt : Option ℕ := none
  purgedAt : Option ℕ := none
deriving DecidableEq, Repr

structure UpkeepSettings where
  reindexRollbackWindow : ℕ
  reindexPurgeBatchSize : ℕ
  reindexStuckAfterSeconds : ℕ

/-- The jobs that a rescue has found, and has not concluded on. -/
structure Scan where
  pending : List JobId
  stalled : List JobId
deriving DecidableEq, Repr

/-- What the rescue writes into a job that has come to a standstill. -/
def stalledUpdate : JobUpdate where
  status := some .failed
  error := some
    { cause := "ReindexStalled"
      message := "重建停滯逾時，已中止；可重新發起（已算好的向量會沿用）" }

/-- The writes of a rescue. -/
def Scan.writes (scan : Scan) : List (JobId × JobUpdate) :=
  scan.stalled.map fun id => (id, stalledUpdate)

/-- A switch of a knowledge base: when it was, and the pair that had served the queries before. -/
structure SwitchRecord where
  kbId : KbId
  switchedAt : ℕ
  model : String
  embeddingVersion : ℕ
deriving DecidableEq, Repr

/-- The system with the time stamps and the open rescues.  `switches` is a ghost: all switches,
the latest one first. -/
structure Upkeep where
  world : World := {}
  stamps : JobId → JobStamps := fun _ => {}
  scans : List Scan := []
  switches : List SwitchRecord := []

namespace Upkeep

def db (s : Upkeep) : Db := s.world.shared.db

def now (s : Upkeep) : ℕ := s.world.shared.now

/-- `switched_before`. -/
def switchedBefore (cutoff limit : ℕ) (s : Upkeep) : List KbReindexJob :=
  let rows := s.db.reindexJobs.filter fun job =>
    job.status = .completed && (s.stamps job.id).purgedAt.isNone &&
      (s.stamps job.id).switchedAt.any (· < cutoff)
  (rows.insertionSort fun a b =>
    (s.stamps a.id).switchedAt.getD 0 ≤ (s.stamps b.id).switchedAt.getD 0).take limit

/-- `stuck_in` of the jobs. -/
def stuckIn (statuses : List ReindexStatus) (notUpdatedSince : ℕ) (s : Upkeep) :
    List KbReindexJob :=
  let rows := s.db.reindexJobs.filter fun job =>
    job.status ∈ statuses && (s.stamps job.id).updatedAt < notUpdatedSince
  rows.insertionSort fun a b => (s.stamps a.id).updatedAt ≤ (s.stamps b.id).updatedAt

/-- The embeddings of a knowledge base under any other pair are deleted. -/
def purgeOtherVersions (kb : KbId) (keepModel : String) (keepEmbeddingVersion : ℕ) (db : Db) :
    Db :=
  { db with
    embeddings := db.embeddings.filter fun e =>
      !((db.chunks.any fun c => c.id = e.chunkId && c.kbId = kb) &&
        !(e.model = keepModel && e.embeddingVersion = keepEmbeddingVersion)) }

/-- The pair that is kept is the current one of the knowledge base.  Of a knowledge base that is
gone there is nothing to purge here. -/
def purgeFor (db : Db) (job : KbReindexJob) : Db :=
  match KnowledgeBaseRepository.getById db job.kbId with
  | none => db
  | some kb => purgeOtherVersions kb.id kb.embeddingModel kb.embeddingVersion db

/-- The jobs are marked as purged. -/
def markPurged (now : ℕ) (jobs : List KbReindexJob) (stamps : JobId → JobStamps) :
    JobId → JobStamps :=
  jobs.foldl
    (fun stamps job =>
      Function.update stamps job.id
        { stamps job.id with
          updatedAt := now
          purgedAt := some now })
    stamps

def setDb (db : Db) (s : Upkeep) : Upkeep :=
  { s with world := { s.world with shared := { s.world.shared with db := db } } }

/-- `purge_switched`, in one transaction. -/
def purgeSwitched (us : UpkeepSettings) (cutoff : ℕ) (s : Upkeep) : Upkeep :=
  let jobs := s.switchedBefore cutoff us.reindexPurgeBatchSize
  { s.setDb (jobs.foldl purgeFor s.db) with stamps := markPurged s.now jobs s.stamps }

/-- `_REQUEUE_STATUSES` -/
def requeueStatuses : List ReindexStatus := [.pending]

/-- `_FAIL_STATUSES` -/
def failStatuses : List ReindexStatus := [.rechunking, .embedding]

/-- The jobs that have not begun are sent again, after the transaction. -/
def requeue : List JobId → Prog Unit
  | [] => pure ()
  | id :: rest => do
      let _ ← perform (.enqueue (.reindexKb id) 0 0)
      requeue rest

/-- The stamps after some rows have been updated. -/
def touch (now : ℕ) (ids : List JobId) (stamps : JobId → JobStamps) : JobId → JobStamps :=
  fun id => if id ∈ ids then { stamps id with updatedAt := now } else stamps id

/-- The end of a rescue. -/
def giveUp (scan : Scan) (s : Upkeep) : Upkeep :=
  let rows := writeJobs scan.writes s.db.reindexJobs
  let shared := { s.world.shared with db := { s.db with reindexJobs := rows } }
  { s with
    world :=
      { shared := shared
        running := s.world.running ++ [{ code := requeue scan.pending }] }
    stamps := touch s.now scan.stalled s.stamps }

/-- The stamps after a transaction: a new row is stamped, a written row is touched, and a switch is
stamped as one. -/
def stampsAfter (s : Upkeep) : Tx → JobId → JobStamps
  | .startReindex _ _ _ =>
      Function.update s.stamps s.db.reindexJobs.length { updatedAt := s.now }
  | t =>
      let touched := touch s.now ((t.jobWrites s.db).map (·.1)) s.stamps
      match t.switches s.db with
      | none => touched
      | some job =>
          Function.update touched job.id
            { touched job.id with switchedAt := some s.now }

/-- The switches after a transaction. -/
def switchesAfter (cfg : Settings) (s : Upkeep) (t : Tx) : List SwitchRecord :=
  match t.switches s.db with
  | none => s.switches
  | some job =>
      match KnowledgeBaseRepository.getById s.db job.kbId with
      | none => s.switches
      | some kb =>
          { kbId := kb.id
            switchedAt := s.now
            model := modelFor cfg kb.embeddingModel
            embeddingVersion := kb.embeddingVersion } :: s.switches

/-- The system has come to another state by an action. -/
def after (cfg : Settings) (a : Action) (w : World) (s : Upkeep) : Upkeep :=
  match a.commit? cfg s.world with
  | none => { s with world := w }
  | some t =>
      { s with
        world := w
        stamps := s.stampsAfter t
        switches := s.switchesAfter cfg t }

end Upkeep

inductive UpkeepAction where
  | system (a : Action)
  /-- The purge, with a cutoff taken at this moment or before. -/
  | purge (cutoff : ℕ)
  /-- A rescue begins, with a threshold taken at this moment or before. -/
  | scan (threshold : ℕ)
  /-- A rescue ends: it gives up the stalled jobs and goes on to send the others again. -/
  | conclude (i : ℕ)
  /-- A rescue is rolled back. -/
  | abandon (i : ℕ)

namespace Upkeep

def step (cfg : Settings) (us : UpkeepSettings) : UpkeepAction → Upkeep → Option Upkeep
  | .system a, s => do
      let w ← World.step cfg a s.world
      some (s.after cfg a w)
  | .purge cutoff, s =>
      if cutoff ≤ s.now - us.reindexRollbackWindow then some (s.purgeSwitched us cutoff) else none
  | .scan threshold, s =>
      if threshold ≤ s.now - us.reindexStuckAfterSeconds then
        some
          { s with
            scans := s.scans ++
              [{ pending := (s.stuckIn requeueStatuses threshold).map (·.id)
                 stalled := (s.stuckIn failStatuses threshold).map (·.id) }] }
      else none
  | .conclude i, s => do
      let scan ← s.scans[i]?
      some { s.giveUp scan with scans := s.scans.eraseIdx i }
  | .abandon i, s => some { s with scans := s.scans.eraseIdx i }

/-- No job has been started. -/
def Initial (s : Upkeep) : Prop :=
  ∃ w, World.Initial w ∧ s = { world := w }

end Upkeep

/-- The system with its two scans. -/
def upkeep (cfg : Settings) (us : UpkeepSettings) : Machine Upkeep UpkeepAction where
  init := Upkeep.Initial
  step := Upkeep.step cfg us

/-! ### What a step does -/

namespace Upkeep

section

variable {cfg : Settings} {us : UpkeepSettings} {s t : Upkeep}

@[simp]
theorem after_world (a : Action) (w : World) : (s.after cfg a w).world = w := by
  unfold after
  split
  all_goals rfl

/-- A step of the system, a purge, the end of a rescue, or nothing that the services notice. -/
theorem step_cases {a : UpkeepAction} (h : (upkeep cfg us).step a s = some t) :
  (∃ a' w, a = .system a' ∧ World.step cfg a' s.world = some w ∧ t = s.after cfg a' w) ∨
    (∃ cutoff, a = .purge cutoff ∧ t = s.purgeSwitched us cutoff) ∨
    (∃ i scan, a = .conclude i ∧ s.scans[i]? = some scan ∧
      t = { s.giveUp scan with scans := s.scans.eraseIdx i }) ∨
    ∃ scans, t = { s with scans := scans } ∧ (∀ a', a ≠ .system a') ∧
      (∀ cutoff, a ≠ .purge cutoff) ∧ ∀ i, a ≠ .conclude i
  := by
  cases a with
  | system a =>
    obtain ⟨w, hstep, ht⟩ := Option.bind_eq_some_iff.mp h
    cases ht
    left
    exact ⟨a, w, rfl, hstep, rfl⟩
  | purge cutoff =>
    simp only [upkeep, step] at h
    split_ifs at h
    cases h
    right; left
    exact ⟨cutoff, rfl, rfl⟩
  | scan threshold =>
    simp only [upkeep, step] at h
    split_ifs at h
    cases h
    right; right; right
    exact ⟨_, rfl, nofun, nofun, nofun⟩
  | conclude i =>
    obtain ⟨scan, hscan, ht⟩ := Option.bind_eq_some_iff.mp h
    cases ht
    right; right; left
    exact ⟨i, scan, rfl, hscan, rfl⟩
  | abandon i =>
    cases h
    right; right; right
    exact ⟨_, rfl, nofun, nofun, nofun⟩

/-! ### The purge -/

/-- Whether the purge for a job deletes an embedding. -/
def deletes (db : Db) (e : Embedding) (job : KbReindexJob) : Bool :=
  match KnowledgeBaseRepository.getById db job.kbId with
  | none => false
  | some kb =>
      (db.chunks.any fun c => c.id = e.chunkId && c.kbId = kb.id) &&
        !(e.model = kb.embeddingModel && e.embeddingVersion = kb.embeddingVersion)

theorem purgeFor_eq (db : Db) (job : KbReindexJob) :
  purgeFor db job =
    { db with embeddings := db.embeddings.filter fun e => !deletes db e job }
  := by
  unfold purgeFor deletes
  split
  · simp only [Bool.not_false, List.filter_true]
  · rfl

/-- The purges of a transaction do not see each other. -/
theorem foldl_purgeFor (jobs : List KbReindexJob) (db : Db) :
  jobs.foldl purgeFor db =
    { db with embeddings := db.embeddings.filter fun e => !jobs.any (deletes db e) }
  := by
  induction jobs generalizing db with
  | nil => simp only [List.foldl_nil, List.any_nil, Bool.not_false, List.filter_true]
  | cons job rest ih =>
    rw [List.foldl_cons, ih, purgeFor_eq, List.filter_filter]
    simp only [List.any_cons, Bool.not_or]
    congr 1
    apply List.filter_congr
    intro e _
    rw [Bool.and_comm]
    rfl

/-- A purge deletes embeddings and nothing else. -/
theorem purgeSwitched_db (cutoff : ℕ) :
  (s.purgeSwitched us cutoff).db =
    { s.db with
      embeddings := s.db.embeddings.filter fun e =>
        !(s.switchedBefore cutoff us.reindexPurgeBatchSize).any (deletes s.db e) }
  := by
  apply foldl_purgeFor

/-! ### The constraints -/

theorem wellFormed_step (a : UpkeepAction) (s t : Upkeep) (h : WellFormed s.db)
    (hstep : (upkeep cfg us).step a s = some t) :
  WellFormed t.db
  := by
  obtain ⟨a', w, rfl, hsystem, rfl⟩ | ⟨cutoff, rfl, rfl⟩ | ⟨i, scan, rfl, hscan, rfl⟩ |
    ⟨scans, rfl, -⟩ := step_cases hstep
  · unfold db
    rw [after_world]
    apply keep_of_effect (fun _ _ _ _ hdb he => hdb.effect he) a' s.world w h hsystem
  · rw [purgeSwitched_db]
    refine { h with embeddingKeys := ?_, embeddingChunk := ?_ }
    · apply h.embeddingKeys.filter
    · intro e he
      apply h.embeddingChunk e (List.mem_of_mem_filter he)
  · apply h.of_data
    rfl
  · apply h

end

theorem initial_db {s : Upkeep} (h : Initial s) : WellFormed s.db := by
  obtain ⟨w, hw, rfl⟩ := h
  apply wellFormed_of_initial hw

/-- The constraints hold in every state of every run. -/
theorem wellFormed_of_run {cfg : Settings} {us : UpkeepSettings}
    {h : List (Upkeep × UpkeepAction)} {s : Upkeep} (run : (upkeep cfg us).Run h s) :
  ∀ u ∈ Machine.states h s, WellFormed u.db
  := by
  apply run.forall_states (I := fun u => WellFormed u.db)
  · intro s hs
    apply initial_db hs
  · apply wellFormed_step

/-! ### Small runs -/

/-- Settings for small runs. -/
def sampleUpkeep : UpkeepSettings where
  reindexRollbackWindow := 10
  reindexPurgeBatchSize := 50
  reindexStuckAfterSeconds := 100

theorem sampleUpkeep_initial : Initial { world := sampleWorld } :=
  ⟨sampleWorld, sampleWorld_initial, rfl⟩

end Upkeep

end Lumina.Knowledge
