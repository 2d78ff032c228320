import Lumina.Knowledge.Documents
import Lumina.Knowledge.Embedding

/-!
# KbReindexService

`advance` moves a job of a knowledge base one round on.  A job that cuts the chunks anew first
reingests every document, a batch in each round, and waits for all of them; then the chunks
without an embedding of the target pair are embedded, and the round closes with the count that
decides on the switch.
-/

namespace Lumina.Knowledge.KbReindexService

open Interleaving

variable (cfg : Settings)

/-- A new job, and the message for it. -/
def start (kb : KbId) (targetModel : Option String) (rechunk : Option Bool) : Prog Unit := do
  let job ← tx (.startReindex kb targetModel rechunk)
  let _ ← perform (.enqueue (.reindexKb job.id) 0 0)
  pure ()

/-! ### The embedding phase -/

/-- The batches of a list, each of `embedBatchSize` elements but the last; `n` bounds their
number. -/
def batchesUpTo {α : Type} : (n : ℕ) → List α → List (List α)
  | 0, _ => []
  | _ + 1, [] => []
  | n + 1, a :: rest =>
      (a :: rest).take EmbeddingService.embedBatchSize ::
        batchesUpTo n ((a :: rest).drop EmbeddingService.embedBatchSize)

/-- The batches of `_embed_missing`. -/
def batches {α : Type} (pending : List α) : List (List α) :=
  batchesUpTo pending.length pending

theorem flatten_batchesUpTo {α : Type} {n : ℕ} {pending : List α} (h : pending.length ≤ n) :
  (batchesUpTo n pending).flatten = pending
  := by
  induction n generalizing pending with
  | zero =>
    rw [List.length_eq_zero_iff.mp (Nat.le_zero.mp h)]
    rfl
  | succ n ih =>
    cases pending with
    | nil => rfl
    | cons a rest =>
      rw [batchesUpTo, List.flatten_cons, ih, List.take_append_drop]
      rw [List.length_drop, List.length_cons, EmbeddingService.embedBatchSize]
      rw [List.length_cons] at h
      omega

/-- The batches are the list, in pieces. -/
@[simp]
theorem flatten_batches {α : Type} (pending : List α) : (batches pending).flatten = pending := by
  apply flatten_batchesUpTo (le_refl _)

/-- Each batch is stored on its own.  The job is read again when its target has got the name that
the provider reports. -/
def embedEach (job : KbReindexJob) : List (List (ChunkId × String)) → Prog Unit
  | [] => pure ()
  | batch :: rest => do
      let model ← perform (.embed (batch.map (·.2)) job.targetModel)
      let job ← tx (.upsertForJob job (batch.map (·.1)) model)
      embedEach job rest

def embedMissing (job : KbReindexJob) : Prog Unit := do
  let pending ← tx (.missingChunks job)
  embedEach job (batches pending)

def load (job : JobId) : Prog KbReindexJob :=
  tx (.loadReindexJob job)

/-- The count at the end is taken for the model that the job had in the beginning. -/
def advanceEmbedding (job : KbReindexJob) : Prog KbReindexJob := do
  let model := job.targetModel
  embedMissing job
  let _ ← tx (.closeRound job model)
  load job.id

/-! ### Cutting the chunks anew -/

/-- Reingest the documents of a batch, up to the first one that is in the hands of a task; the
number of those done and the last one of them. -/
def reingestEach : List DocumentId → (processed : ℕ) → (last : Option DocumentId) →
    Prog (ℕ × Option DocumentId)
  | [], processed, last => pure (processed, last)
  | document :: rest, processed, last => do
      match ← (DocumentService.reingest cfg document).attempt with
      | .ok _ => reingestEach rest (processed + 1) (some document)
      | .error e => if e.isConflict then pure (processed, last) else .raise e

/-- The job is alive although there is nothing to do. -/
def heartbeat (job : JobId) : Prog Unit :=
  tx (.updateReindexJob job {})

def advanceRechunk (job : KbReindexJob) : Prog KbReindexJob := do
  let batch ← tx (.rechunkBatch job)
  let (processed, last) ← reingestEach cfg batch 0 none
  if processed ≠ 0 then
    let _ ← tx (.updateReindexJob job.id
      { rechunkCursor := last
        rechunkedDocuments := some (job.rechunkedDocuments + processed) })
    load job.id
  else if batch ≠ [] then
    heartbeat job.id
    pure job
  else if ← tx (.enterEmbedding job) then
    let job ← load job.id
    advanceEmbedding job
  else pure job

/-! ### One round -/

def isTerminal (status : ReindexStatus) : Bool :=
  status = .completed || status = .failed

/-- The job with the status of its first phase, if it has not begun. -/
def begin (job : KbReindexJob) : Prog KbReindexJob :=
  if job.status = .pending then do
    let _ ← tx (.updateReindexJob job.id { status := some (nextStatus .pending job.rechunk) })
    load job.id
  else pure job

/-- One round.  A failure is recorded, so that the next job of the knowledge base may start. -/
def advance (job : JobId) : Prog KbReindexJob := do
  let view ← load job
  if isTerminal view.status then pure view
  else
    let view ← begin view
    Program.handle
      (if view.status = .rechunking then advanceRechunk cfg view else advanceEmbedding view)
      fun e => do
        let _ ← tx (.updateReindexJob job
          { status := some .failed
            error := some (errorPayload e) })
        .raise e

end Lumina.Knowledge.KbReindexService
