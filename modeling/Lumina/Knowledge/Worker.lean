import Lumina.Knowledge.Ingestion
import Lumina.Knowledge.Reindex

/-!
# The tasks of the workers

A document task asks for a slot first; without one it sends its own message again and ends.
With one it runs its service: a missing document ends the task, any other exception is
retried, and when the attempts are used up the failure is recorded and the exception leaves the
task.  The slot is given back on every way out.
-/

namespace Lumina.Knowledge

open Interleaving

/-- `_MAX_RETRIES`. -/
def maxRetries : ℕ := 3

/-- What a task returns. -/
inductive TaskResult where
  | deferred
  | missing
  | finished (status : DocumentStatus)
  | reindexed (status : ReindexStatus)
deriving DecidableEq, Repr

section

variable (cfg : Settings)

/-- `_run_ingest` and `_run_embed`: a service run, and what becomes of its exceptions. -/
def runService (service : Prog DocumentStatus) (exhausted : Exn → (attempts : ℕ) → Prog Unit)
    (retries : ℕ) : Prog TaskResult := do
  match ← service.attempt with
  | .ok status => pure (.finished status)
  | .error e =>
      if e.isNotFound then pure .missing
      else if maxRetries < retries + 1 then
        exhausted e (retries + 1)
        .raise e
      else
        let _ ← perform .retry
        .raise .retry

/-- The common part of the document tasks: the slot around the service run. -/
def documentTask (kind : SlotKind) (message : Message) (service : Prog DocumentStatus)
    (exhausted : Exn → (attempts : ℕ) → Prog Unit) : Prog TaskResult := do
  if ← perform (.acquire kind) then
    (runService service exhausted message.retries).ensure
      (perform (.release kind))
  else
    let _ ← perform
      (.enqueue message.task message.sentFor cfg.etlFairnessRequeueSeconds)
    pure .deferred

def ingestDocument (message : Message) (document : DocumentId) : Prog TaskResult :=
  documentTask cfg .etl message
    (do
      let result ← IngestionService.ingest cfg document
      pure result.status)
    (IngestionService.markRetriesExhausted document)

def embedDocument (batches : ℕ) (message : Message) (document : DocumentId) : Prog TaskResult :=
  documentTask cfg .embedding message
    (do
      let result ← EmbeddingService.embedDocument batches document
      pure result.status)
    (EmbeddingService.markRetriesExhausted document)

/-- `_MAX_ROUNDS_PER_TASK`. -/
def maxRoundsPerTask : ℕ := 20

/-- What the task looks at to see whether a round has moved anything. -/
def roundMark (job : KbReindexJob) : ReindexStatus × ℕ × ℕ :=
  (job.status, job.rechunkedDocuments, job.embeddedChunks)

/-- The rounds after the first one, `rounds` of them at most; the task sends itself again if the
job has not ended. -/
def reindexRounds (job : JobId) : (rounds : ℕ) → (view : KbReindexJob) → Prog KbReindexJob
  | 0, view => do
      if KbReindexService.isTerminal view.status then pure view
      else
        let _ ← perform (.enqueue (.reindexKb job) 0 0)
        pure view
  | rounds + 1, view => do
      if KbReindexService.isTerminal view.status then pure view
      else
        let next ← KbReindexService.advance cfg job
        if roundMark next = roundMark view then
          let _ ← perform
            (.enqueue (.reindexKb job) 0 cfg.reindexPollSeconds)
          pure next
        else reindexRounds job rounds next

def reindexKb (job : JobId) : Prog TaskResult := do
  match ← (KbReindexService.advance cfg job).attempt with
  | .error e => if e.isNotFound then pure .missing else .raise e
  | .ok view => do
      let view ← reindexRounds cfg job (maxRoundsPerTask - 1) view
      pure (.reindexed view.status)

/-- What a worker runs for a message. -/
def Message.code (batches : ℕ) (message : Message) : Prog TaskResult :=
  match message.task with
  | .ingestDocument document => ingestDocument cfg message document
  | .embedDocument document => embedDocument cfg batches message document
  | .reindexKb job => reindexKb cfg job

end

end Lumina.Knowledge
