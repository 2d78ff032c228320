import Lumina.Knowledge.Etl
import Lumina.Knowledge.ReindexPlan

/-!
# The transactions of the services

Every `with unit_of_work()` block of the modelled services is one `Tx`, and `transact` is what it
does: a reply and the new database, or an exception, and then nothing has been written.  A
transaction is atomic; everything that a service does between two of them can be interleaved
with the transactions of the others.
-/

namespace Lumina.Knowledge

/-- `_Target` of the ingestion: the snapshot that a run keeps to the end. -/
structure IngestTarget where
  documentId : DocumentId
  kbId : KbId
  docVersion : ℕ
  storageKey : ObjectKey
  mediaType : String
  chunkConfig : ChunkConfig
deriving DecidableEq, Repr

/-- `_Target` of the embedding. -/
structure EmbedTarget where
  documentId : DocumentId
  docVersion : ℕ
  status : DocumentStatus
  model : String
  embeddingVersion : ℕ
deriving DecidableEq, Repr

/-- The transactions of the services of the knowledge context. -/
inductive Tx where
  /-- `IngestionService._load_target` -/
  | loadIngestTarget (document : DocumentId)
  /-- `DocumentRepository.set_status`, always a transaction of its own -/
  | setStatus (u : StatusUpdate)
  /-- the query of `IngestionService._resume_cleaned` -/
  | cleanSucceeded (document : DocumentId) (docVersion : ℕ)
  /-- `_begin` -/
  | beginJob (key : EtlKey)
  /-- `_finish` and `_fail_job` -/
  | finishJob (key : EtlKey) (status : EtlStatus) (error : Option ErrorPayload)
  /-- the write of `IngestionService._chunk_stage` -/
  | replaceForVersion (document : DocumentId) (kb : KbId) (docVersion : ℕ)
      (rows : List ChunkRow)
  /-- `IngestionService._last_running_stage` -/
  | lastRunningStage (document : DocumentId)
  /-- `IngestionService._failing_stage` -/
  | failingStage (document : DocumentId) (docVersion : ℕ)
  /-- `EmbeddingService._load_target` -/
  | loadEmbedTarget (document : DocumentId)
  /-- `EmbeddingService._pending_chunks` -/
  | pendingChunks (document : DocumentId) (docVersion : ℕ) (model : String)
      (embeddingVersion : ℕ)
  /-- the write of a batch of `EmbeddingService._embed_pending` -/
  | upsert (chunks : List ChunkId) (model : String) (embeddingVersion : ℕ)
  /-- the checks of `DocumentService.upload` -/
  | checkUpload (kb : KbId) (contentHash : String)
  /-- the insertion of `DocumentService.upload` -/
  | createDocument (id : DocumentId) (kb : KbId) (mediaType : String) (contentHash : String)
  /-- `DocumentService.reingest` -/
  | reingest (document : DocumentId) (staleBefore : ℕ)
  /-- `DocumentService.delete` -/
  | delete (document : DocumentId)
  /-- the query of `StuckDocumentRescueService.rescue_tenant` -/
  | stuckIn (statuses : List DocumentStatus) (threshold : ℕ)
  /-- `KbReindexService.start` -/
  | startReindex (kb : KbId) (targetModel : Option String) (rechunk : Option Bool)
  /-- `KbReindexService._load` -/
  | loadReindexJob (job : JobId)
  /-- an update of a reindex job alone: the start, the progress, the heartbeat, the failure -/
  | updateReindexJob (job : JobId) (u : JobUpdate)
  /-- the query of `KbReindexService._advance_rechunk` -/
  | rechunkBatch (job : KbReindexJob)
  /-- the step of `_advance_rechunk` into the embedding phase -/
  | enterEmbedding (job : KbReindexJob)
  /-- the query of `KbReindexService._embed_missing` -/
  | missingChunks (job : KbReindexJob)
  /-- the write of a batch of `KbReindexService._embed_missing` -/
  | upsertForJob (job : KbReindexJob) (chunks : List ChunkId) (reported : String)
  /-- the end of `KbReindexService._advance_embedding` -/
  | closeRound (job : KbReindexJob) (model : String)
deriving DecidableEq, Repr

/-- What a transaction returns. -/
abbrev Tx.Reply : Tx → Type
  | .loadIngestTarget _ => IngestTarget
  | .setStatus _ => ℕ
  | .cleanSucceeded _ _ => Bool
  | .beginJob _ => Unit
  | .finishJob _ _ _ => Unit
  | .replaceForVersion _ _ _ _ => ℕ
  | .lastRunningStage _ => Stage
  | .failingStage _ _ => Stage
  | .loadEmbedTarget _ => EmbedTarget
  | .pendingChunks _ _ _ _ => List (ChunkId × String)
  | .upsert _ _ _ => ℕ
  | .checkUpload _ _ => Unit
  | .createDocument _ _ _ _ => Unit
  | .reingest _ _ => ℕ
  | .delete _ => Unit
  | .stuckIn _ _ => List Document
  | .startReindex _ _ _ => KbReindexJob
  | .loadReindexJob _ => KbReindexJob
  | .updateReindexJob _ _ => Unit
  | .rechunkBatch _ => List DocumentId
  | .enterEmbedding _ => Bool
  | .missingChunks _ => List (ChunkId × String)
  | .upsertForJob _ _ _ => KbReindexJob
  | .closeRound _ _ => Unit

/-! ### Ingestion -/

section

variable (cfg : Settings) (now : ℕ) (db : Db)

/-- `_require`: a document that is missing or deleted. -/
def requireDocument (id : DocumentId) : Except Exn Document :=
  match DocumentRepository.getById db id with
  | none => .error (.notFound "文件不存在")
  | some d => .ok d

def requireKnowledgeBase (id : KbId) : Except Exn KnowledgeBase :=
  match KnowledgeBaseRepository.getById db id with
  | none => .error (.notFound "知識庫不存在")
  | some kb => .ok kb

def loadIngestTarget (document : DocumentId) : Except Exn IngestTarget := do
  let d ← requireDocument db document
  let kb ← requireKnowledgeBase db d.kbId
  pure
    { documentId := d.id
      kbId := d.kbId
      docVersion := d.docVersion
      storageKey := d.storageKey
      mediaType := d.mimeType
      chunkConfig := cfg.chunkConfigFrom kb.config }

/-- The stages of the ingestion, in their order. -/
def ingestStages : List Stage := [.extract, .clean, .chunk]

/-- The status of the job of a stage, if there is one. -/
def jobStatus (document : DocumentId) (docVersion : ℕ) (stage : Stage) : Option EtlStatus :=
  (EtlJobRepository.find db { documentId := document, docVersion := docVersion, stage := stage }).map
    (·.status)

/-- The first stage of the current version that has not succeeded. -/
def lastRunningStage (document : DocumentId) : Stage :=
  match DocumentRepository.getById db document with
  | none => .extract
  | some d =>
      (ingestStages.find? fun stage =>
        jobStatus db document d.docVersion stage ≠ some .succeeded).getD .chunk

/-- The first stage of a version that has failed. -/
def failingStage (document : DocumentId) (docVersion : ℕ) : Stage :=
  (ingestStages.find? fun stage =>
    jobStatus db document docVersion stage = some .failed).getD .extract

/-! ### Embedding -/

def loadEmbedTarget (document : DocumentId) : Except Exn EmbedTarget := do
  let d ← requireDocument db document
  let kb ← requireKnowledgeBase db d.kbId
  pure
    { documentId := d.id
      docVersion := d.docVersion
      status := d.status
      model := modelFor cfg kb.embeddingModel
      embeddingVersion := kb.embeddingVersion }

/-- The chunks among some active ones that have no embedding under a model and version. -/
def withoutEmbedding (active : List Chunk) (model : String) (embeddingVersion : ℕ) :
    List (ChunkId × String) :=
  let missing := EmbeddingRepository.chunksWithoutEmbedding db (active.map (·.id)) model
    embeddingVersion
  (active.filter fun c => c.id ∈ missing).map fun c => (c.id, c.row.content)

/-! ### Documents -/

def checkUpload (kb : KbId) (contentHash : String) : Except Exn Unit := do
  let _ ← requireKnowledgeBase db kb
  if (DocumentRepository.findByContentHash db kb contentHash).isSome then
    .error (.conflict "這份文件已經在這個知識庫裡")
  else return ()

/-- `build_document_key`. -/
def buildDocumentKey (kb : KbId) (document : DocumentId) : ObjectKey :=
  .document kb document

def createDocument (id : DocumentId) (kb : KbId) (mediaType contentHash : String) :
    Except Exn Db :=
  DocumentRepository.create
    { id := id
      kbId := kb
      mimeType := mediaType
      storageKey := buildDocumentKey kb id
      contentHash := contentHash
      updatedAt := now }
    db

/-- A new version: the chunks of all earlier ones are superseded.  A document in the hands of a
task is left to it, unless there has been no movement since `staleBefore`. -/
def reingest (document : DocumentId) (staleBefore : ℕ) : Except Exn (ℕ × Db) := do
  let d ← requireDocument db document
  if d.status ∈ inProgressStatuses ∧ staleBefore < d.updatedAt then
    .error (.conflict "文件正在處理中，請等它結束再重跑")
  else
    let nextVersion := d.docVersion + 1
    let db := ChunkRepository.supersedeForDocument document db
    return (nextVersion, DocumentRepository.startNewVersion now document nextVersion db)

def deleteDocument (document : DocumentId) : Except Exn Db := do
  let _ ← requireDocument db document
  let db := ChunkRepository.supersedeForDocument document db
  return DocumentRepository.softDelete now document db

/-! ### Reindexing -/

def startReindex (kb : KbId) (targetModel : Option String) (rechunk : Option Bool) :
    Except Exn (KbReindexJob × Db) := do
  let row ← requireKnowledgeBase db kb
  match planReindex (modelFor cfg row.embeddingModel) row.embeddingVersion row.knowledgeVersion
      row.indexedKnowledgeVersion targetModel rechunk with
  | .error message => .error (.domain { cls := .validationFailed, message := message })
  | .ok plan =>
      if (KbReindexJobRepository.activeForKb db kb).isSome then
        .error (.conflict "這個知識庫正在重建中")
      else
        let job : KbReindexJob :=
          { id := db.reindexJobs.length
            kbId := kb
            targetModel := plan.targetModel
            targetEmbeddingVersion := plan.targetEmbeddingVersion
            targetKnowledgeVersion := plan.targetKnowledgeVersion
            rechunk := plan.rechunk
            totalChunks := ChunkRepository.countActiveForKb db kb
            totalDocuments := DocumentRepository.countForKb db kb }
        return (job, KbReindexJobRepository.create job db)

def loadReindexJob (job : JobId) : Except Exn KbReindexJob :=
  match KbReindexJobRepository.getById db job with
  | none => .error (.notFound "重建工作不存在")
  | some job => .ok job

/-- `RECHUNK_BATCH_SIZE`. -/
def rechunkBatchSize : ℕ := 50

/-- The next documents to be cut anew, after the stored cursor. -/
def rechunkBatch (job : KbReindexJob) : List DocumentId :=
  let cursor := (KbReindexJobRepository.getById db job.id).bind (·.rechunkCursor)
  (DocumentRepository.forKbAfter db job.kbId cursor rechunkBatchSize).map (·.id)

/-- Into the embedding phase, unless a document is still being processed. -/
def enterEmbedding (job : KbReindexJob) : Bool × Db :=
  if DocumentRepository.countInStatusesForKb db job.kbId stillProcessingStatuses ≠ 0 then
    (false, KbReindexJobRepository.update job.id {} db)
  else
    (true, KbReindexJobRepository.update job.id
      { status := some .embedding
        totalChunks := some (ChunkRepository.countActiveForKb db job.kbId) } db)

/-- A batch is stored under the name that the provider reported, and the target of the job
becomes that name. -/
def upsertForJob (job : KbReindexJob) (chunks : List ChunkId) (reported : String) :
    Except Exn (KbReindexJob × Db) := do
  let model := if reported = "" then job.targetModel else reported
  let (_, db) ← EmbeddingRepository.upsert chunks model job.targetEmbeddingVersion db
  if reported ≠ "" ∧ reported ≠ job.targetModel then
    let db := KbReindexJobRepository.update job.id { targetModel := some reported } db
    let job ← loadReindexJob db job.id
    return (job, db)
  else return (job, db)

/-- `ReindexProgress`: the count of the embedded chunks is cut off at the total. -/
def reindexProgress (total done : ℕ) : ReindexProgress where
  totalChunks := total
  embeddedChunks := min done total
  counted := Nat.min_le_right done total

/-- `_switch`: the knowledge base gets the pair of the job, and the job is completed. -/
def switch (job : KbReindexJob) (model : String) : Db :=
  KbReindexJobRepository.update job.id { status := some .completed }
    (KnowledgeBaseRepository.update job.kbId model job.targetEmbeddingVersion
      job.targetKnowledgeVersion db)

/-- The progress of a job when its round closes: the active chunks, and the embeddings of the
target pair. -/
def roundProgress (job : KbReindexJob) (model : String) : ReindexProgress :=
  reindexProgress (ChunkRepository.countActiveForKb db job.kbId)
    (EmbeddingRepository.countForKbVersion db job.kbId model job.targetEmbeddingVersion)

/-- The end of a round of the embedding phase: the progress, and the switch if it is complete. -/
def closeRound (job : KbReindexJob) (model : String) : Db :=
  let progress := roundProgress db job model
  let db := KbReindexJobRepository.update job.id
    { totalChunks := some progress.totalChunks
      embeddedChunks := some progress.embeddedChunks } db
  if readyToSwitch .embedding progress then switch db job model else db

end

/-! ### Running a transaction -/

/-- What a transaction does at a moment. -/
def transact (cfg : Settings) (now : ℕ) : (t : Tx) → Db → Except Exn (t.Reply × Db)
  | .loadIngestTarget document, db => do return (← loadIngestTarget cfg db document, db)
  | .setStatus u, db => .ok (DocumentRepository.setStatus now u db)
  | .cleanSucceeded document docVersion, db =>
      .ok (decide (jobStatus db document docVersion .clean = some .succeeded), db)
  | .beginJob key, db => .ok ((), EtlJobRepository.start key db)
  | .finishJob key status error, db => .ok ((), EtlJobRepository.finish key status error db)
  | .replaceForVersion document kb docVersion rows, db =>
      ChunkRepository.replaceForVersion document kb docVersion rows db
  | .lastRunningStage document, db => .ok (lastRunningStage db document, db)
  | .failingStage document docVersion, db => .ok (failingStage db document docVersion, db)
  | .loadEmbedTarget document, db => do return (← loadEmbedTarget cfg db document, db)
  | .pendingChunks document docVersion model embeddingVersion, db =>
      .ok (withoutEmbedding db (ChunkRepository.activeForVersion db document docVersion) model
        embeddingVersion, db)
  | .upsert chunks model embeddingVersion, db =>
      EmbeddingRepository.upsert chunks model embeddingVersion db
  | .checkUpload kb contentHash, db => do return (← checkUpload db kb contentHash, db)
  | .createDocument id kb mediaType contentHash, db => do
      return ((), ← createDocument now db id kb mediaType contentHash)
  | .reingest document staleBefore, db => reingest now db document staleBefore
  | .delete document, db => do return ((), ← deleteDocument now db document)
  | .stuckIn statuses threshold, db => .ok (DocumentRepository.stuckIn db statuses threshold, db)
  | .startReindex kb targetModel rechunk, db => startReindex cfg db kb targetModel rechunk
  | .loadReindexJob job, db => do return (← loadReindexJob db job, db)
  | .updateReindexJob job u, db => .ok ((), KbReindexJobRepository.update job u db)
  | .rechunkBatch job, db => .ok (rechunkBatch db job, db)
  | .enterEmbedding job, db => .ok (enterEmbedding db job)
  | .missingChunks job, db =>
      .ok (withoutEmbedding db (ChunkRepository.forRetrieval db job.kbId) job.targetModel
        job.targetEmbeddingVersion, db)
  | .upsertForJob job chunks reported, db => upsertForJob db job chunks reported
  | .closeRound job model, db => .ok ((), closeRound db job model)

end Lumina.Knowledge
