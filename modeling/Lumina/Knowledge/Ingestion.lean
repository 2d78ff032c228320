import Lumina.Knowledge.Operations

/-!
# IngestionService

`ingest` runs extract, clean and chunk for one document.  The target is read once and kept as a
snapshot; every stage is a few transactions of its own, with the work of the stage in between.
A permanent failure is recorded and the run ends normally; every other exception leaves it.
-/

namespace Lumina.Knowledge.IngestionService

open Interleaving

structure IngestionResult where
  documentId : DocumentId
  status : DocumentStatus
  chunkCount : ℕ
deriving DecidableEq, Repr

/-- The key of the cleaned artifact; it carries the version. -/
def artifactKey (target : IngestTarget) : ObjectKey :=
  .cleaned target.storageKey target.docVersion

/-- `_chunk_row`. -/
def chunkRow (chunk : TextChunk) : ChunkRow where
  seq := chunk.seq
  content := chunk.text
  tokenCount := chunk.tokenCount
  page := chunk.page
  headingPath := chunk.headingPath

def jobKey (target : IngestTarget) (stage : Stage) : EtlKey where
  documentId := target.documentId
  docVersion := target.docVersion
  stage := stage

/-- The status writes of a run: none of them expects anything of the row. -/
def setStatus (document : DocumentId) (status : DocumentStatus)
    (error : Option DocumentError := none) : Prog ℕ :=
  tx (.setStatus { document := document, status := status, error := error })

/-- The work of a stage, between the start of its job and the end of it. -/
def stage {α : Type} (target : IngestTarget) (stage : Stage) (work : Prog α) : Prog α := do
  let _ ← tx (.beginJob (jobKey target stage))
  let result ← work.handle fun e => do
    let _ ← tx (.finishJob (jobKey target stage) .failed (some (errorPayload e)))
    .raise e
  let _ ← tx (.finishJob (jobKey target stage) .succeeded none)
  pure result

variable (cfg : Settings)

/-- The artifact of an earlier run, if the cleaning has succeeded and it can be read.  An
unreadable one is no error: the stages run again. -/
def resumeCleaned (target : IngestTarget) : Prog (Option ExtractedDoc) := do
  if ← tx (.cleanSucceeded target.documentId target.docVersion) then
    Program.handle
      (do
        let payload ← perform (.getObject (artifactKey target))
        let doc ← Program.ofExcept (cfg.etl.fromJson payload)
        pure (some doc))
      fun e => match e with
        | .domain { cls := .crossTenantObjectKey, .. } => .raise e
        | .domain _ => pure none
        | .os _ => pure none
        | _ => .raise e
  else pure none

def extractStage (target : IngestTarget) : Prog ExtractedDoc :=
  stage target .extract do
    let content ← perform (.getObject target.storageKey)
    perform (.extractIsolated content target.mediaType)

/-- The artifact is stored before the job is marked as succeeded. -/
def cleanStage (target : IngestTarget) (document : ExtractedDoc) : Prog ExtractedDoc :=
  stage target .clean do
    let cleaned := cfg.etl.clean document
    let _ ← perform (.putObject (artifactKey target) (cfg.etl.toJson cleaned))
    pure cleaned

/-- The chunks of the snapshot's version are replaced, whatever the version of the document is
by now. -/
def chunkStage (target : IngestTarget) (cleaned : ExtractedDoc) : Prog (List TextChunk) :=
  stage target .chunk do
    let chunks := cfg.etl.chunkDocument cleaned target.chunkConfig
    let _ ← tx (.replaceForVersion target.documentId target.kbId target.docVersion
      (chunks.map chunkRow))
    pure chunks

/-- The cleaned document: from the artifact, or from the original again. -/
def materialiseCleaned (target : IngestTarget) : Prog ExtractedDoc := do
  match ← resumeCleaned cfg target with
  | some resumed => pure resumed
  | none =>
      let raw ← extractStage target
      cleanStage cfg target raw

/-- `_run`: the stages, with the status of the document moved along. -/
def run (target : IngestTarget) : Prog IngestionResult := do
  let _ ← setStatus target.documentId .parsing
  let cleaned ← materialiseCleaned cfg target
  let _ ← setStatus target.documentId .cleaned
  let chunks ← chunkStage cfg target cleaned
  let _ ← setStatus target.documentId .chunked
  -- the message to the embedding queue; whether it could be sent does not matter here
  let _ ← perform
    (.enqueue (.embedDocument target.documentId) target.docVersion 0)
  pure
    { documentId := target.documentId
      status := .chunked
      chunkCount := chunks.length }

def failPermanently (target : IngestTarget) (e : Exn) : Prog IngestionResult := do
  let stage ← tx (.failingStage target.documentId target.docVersion)
  let _ ← setStatus target.documentId .failed
    (some { stage := stage, payload := errorPayload e, retryable := false })
  pure { documentId := target.documentId, status := .failed, chunkCount := 0 }

/-- Extract, clean and chunk one document. -/
def ingest (document : DocumentId) : Prog IngestionResult := do
  let target ← tx (.loadIngestTarget document)
  (run cfg target).handle fun e =>
    if e.isPermanentFailure then failPermanently target e else .raise e

/-- The record of a task whose attempts are used up.  The write expects nothing of the row. -/
def markRetriesExhausted (document : DocumentId) (e : Exn) (attempts : ℕ) : Prog Unit := do
  let stage ← tx (.lastRunningStage document)
  let _ ← setStatus document .failed
    (some
      { stage := stage
        payload := errorPayload e
        retryable := true
        attempts := some attempts })
  pure ()

end Lumina.Knowledge.IngestionService
