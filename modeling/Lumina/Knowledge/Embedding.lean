import Lumina.Knowledge.Operations

/-!
# EmbeddingService

`embedDocument` gives the active chunks of a document embeddings under the pair of its knowledge
base, in batches that are stored one by one, and moves the document to `ready`.  Only chunks
without an embedding are sent to the provider.

The loop over the batches may begin anew with another list when the provider reports another
model name, so it need not end; `batches` bounds how far the model follows it.
-/

namespace Lumina.Knowledge.EmbeddingService

open Interleaving

structure EmbeddingResult where
  documentId : DocumentId
  status : DocumentStatus
  embeddedCount : ℕ
deriving DecidableEq, Repr

/-- `EMBED_BATCH_SIZE`. -/
def embedBatchSize : ℕ := 64

def jobKey (target : EmbedTarget) : EtlKey where
  documentId := target.documentId
  docVersion := target.docVersion
  stage := .embed

/-- The world has moved on: nothing more is done. -/
def skipStale (target : EmbedTarget) : EmbeddingResult where
  documentId := target.documentId
  status := target.status
  embeddedCount := 0

def pendingChunks (target : EmbedTarget) (model : String) : Prog (List (ChunkId × String)) :=
  tx (.pendingChunks target.documentId target.docVersion model target.embeddingVersion)

/-- The loop of `_embed_pending`; the result is the number of the chunks that were embedded. -/
def embedBatches (target : EmbedTarget) :
    (batches : ℕ) → (lookupModel : String) → (pending : List (ChunkId × String)) →
      (embedded : ℕ) → Prog ℕ
  | _, _, [], embedded => pure embedded
  | 0, _, _ :: _, embedded => do
      let _ ← perform .unfinished
      pure embedded
  | batches + 1, lookupModel, chunk :: chunks, embedded => do
      let batch := (chunk :: chunks).take embedBatchSize
      let model ← perform (.embed (batch.map (·.2)) target.model)
      let _ ← tx (.upsert (batch.map (·.1)) model target.embeddingVersion)
      if model ≠ "" ∧ model ≠ lookupModel then
        -- the list was asked for under the wrong name
        let _ ← perform (.rememberResolution target.model model)
        let pending ← pendingChunks target model
        embedBatches target batches model pending (embedded + batch.length)
      else
        embedBatches target batches lookupModel ((chunk :: chunks).drop embedBatchSize)
          (embedded + batch.length)

def embedPending (batches : ℕ) (target : EmbedTarget) : Prog ℕ := do
  let lookupModel ← perform (.resolvedModel target.model)
  let pending ← pendingChunks target lookupModel
  embedBatches target batches lookupModel pending 0

def failJob (target : EmbedTarget) (e : Exn) : Prog Unit :=
  tx (.finishJob (jobKey target) .failed (some (errorPayload e)))

/-- A failure that another attempt does not mend.  The write expects the version only. -/
def failPermanently (target : EmbedTarget) (e : Exn) : Prog EmbeddingResult := do
  let _ ← failJob target e
  let marked ← tx (.setStatus
    { document := target.documentId
      status := .failed
      error := some { stage := .embed, payload := errorPayload e, retryable := false }
      expectedDocVersion := some target.docVersion })
  if marked = 0 then pure (skipStale target)
  else pure { documentId := target.documentId, status := .failed, embeddedCount := 0 }

/-- What follows the batches: the end of the job, and `ready`. -/
def promote (target : EmbedTarget) (embedded : ℕ) : Prog EmbeddingResult := do
  let _ ← tx (.finishJob (jobKey target) .succeeded none)
  let promoted ← tx (.setStatus
    { document := target.documentId
      status := .ready
      expectedStatus := some [.embedding]
      expectedDocVersion := some target.docVersion })
  if promoted = 0 then pure (skipStale target)
  else pure { documentId := target.documentId, status := .ready, embeddedCount := embedded }

/-- What follows an exception of the batches. -/
def embeddingFailed (target : EmbedTarget) (e : Exn) : Prog EmbeddingResult :=
  if e.provider?.any (!·.retryable) then failPermanently target e
  else do
    let _ ← failJob target e
    .raise e

/-- Embed the active chunks of one document. -/
def embedDocument (batches : ℕ) (document : DocumentId) : Prog EmbeddingResult := do
  let target ← tx (.loadEmbedTarget document)
  if target.status ∉ embeddableStatuses then pure (skipStale target)
  else
    let _ ← tx (.beginJob (jobKey target))
    let moved ← tx (.setStatus
      { document := target.documentId
        status := .embedding
        expectedStatus := some embeddableStatuses
        expectedDocVersion := some target.docVersion })
    if moved = 0 then pure (skipStale target)
    else
      match ← (embedPending batches target).attempt with
      | .ok embedded => promote target embedded
      | .error e => embeddingFailed target e

/-- The record of a task whose attempts are used up.  The write expects a status, but no
version. -/
def markRetriesExhausted (document : DocumentId) (e : Exn) (attempts : ℕ) : Prog Unit := do
  let _ ← tx (.setStatus
    { document := document
      status := .failed
      error := some
        { stage := .embed
          payload := errorPayload e
          retryable := true
          attempts := some attempts }
      expectedStatus := some [.chunked, .embedding] })
  pure ()

end Lumina.Knowledge.EmbeddingService
