import Lumina.Knowledge.Status
import Lumina.Library.Table
import Mathlib.Data.List.Sort

/-!
# The tables of the knowledge context, and their repositories

The tables are those of one tenant.  A repository method is a function of the database; the
methods that can break a constraint of a table return the error instead of a new database.
Identifiers are natural numbers: those of the chunks are drawn from a counter, as fresh ones,
and those of the documents are chosen by the caller.

The vectors themselves, the statistics of the jobs and the columns that no modelled query reads
are left out.
-/

namespace Lumina.Knowledge

abbrev KbId := ℕ
abbrev DocumentId := ℕ
abbrev ChunkId := ℕ
abbrev JobId := ℕ

/-- The keys of the object storage: the original of a document, and the cleaned artifact that is
stored under the key of the original and the version. -/
inductive ObjectKey where
  | document (kb : KbId) (document : DocumentId)
  | cleaned (storageKey : ObjectKey) (docVersion : ℕ)
deriving DecidableEq, Repr

structure KnowledgeBase where
  id : KbId
  config : String := "{}"
  embeddingModel : String := ""
  embeddingVersion : ℕ := 1
  knowledgeVersion : ℕ := 1
  indexedKnowledgeVersion : ℕ := 1
deriving DecidableEq, Repr

structure Document where
  id : DocumentId
  kbId : KbId
  mimeType : String
  storageKey : ObjectKey
  contentHash : String
  status : DocumentStatus := .uploaded
  docVersion : ℕ := 1
  error : Option DocumentError := none
  updatedAt : ℕ
  deletedAt : Option ℕ := none
deriving DecidableEq, Repr

/-- Soft deletion hides a document from the repository. -/
def Document.visible (d : Document) : Bool := d.deletedAt.isNone

/-- What the chunker says about one chunk, as the row to be stored. -/
structure ChunkRow where
  seq : ℕ
  content : String
  tokenCount : ℕ
  page : Option ℕ
  headingPath : List String
deriving DecidableEq, Repr

structure Chunk where
  id : ChunkId
  documentId : DocumentId
  kbId : KbId
  docVersion : ℕ
  row : ChunkRow
  superseded : Bool := false
deriving DecidableEq, Repr

structure Embedding where
  chunkId : ChunkId
  model : String
  embeddingVersion : ℕ
deriving DecidableEq, Repr

/-- The idempotency key of a job of the pipeline; it also names the job. -/
structure EtlKey where
  documentId : DocumentId
  docVersion : ℕ
  stage : Stage
deriving DecidableEq, Repr

inductive EtlStatus where
  | running
  | succeeded
  | failed
deriving DecidableEq, Repr

structure EtlJob where
  key : EtlKey
  status : EtlStatus
  attempt : ℕ
  error : Option ErrorPayload := none
deriving DecidableEq, Repr

inductive ReindexStatus where
  | pending
  | rechunking
  | embedding
  | completed
  | failed
deriving DecidableEq, Repr

structure KbReindexJob where
  id : JobId
  kbId : KbId
  status : ReindexStatus := .pending
  targetModel : String
  targetEmbeddingVersion : ℕ
  targetKnowledgeVersion : ℕ
  rechunk : Bool
  totalChunks : ℕ
  embeddedChunks : ℕ := 0
  totalDocuments : ℕ
  rechunkedDocuments : ℕ := 0
  rechunkCursor : Option DocumentId := none
  error : Option ErrorPayload := none
deriving DecidableEq, Repr

/-- The database of one tenant.  `committed` is a ghost: the documents and versions whose chunk
stage has been committed.  No query reads it. -/
structure Db where
  knowledgeBases : List KnowledgeBase := []
  documents : List Document := []
  chunks : List Chunk := []
  embeddings : List Embedding := []
  etlJobs : List EtlJob := []
  reindexJobs : List KbReindexJob := []
  nextChunk : ChunkId := 0
  committed : List (DocumentId × ℕ) := []
deriving DecidableEq, Repr

/-! ### Knowledge bases -/

namespace KnowledgeBaseRepository

def getById (db : Db) (id : KbId) : Option KnowledgeBase :=
  db.knowledgeBases.find? (·.id = id)

/-- The columns that a switch writes, in one `UPDATE`. -/
def update (id : KbId) (model : String) (embeddingVersion knowledgeVersion : ℕ) (db : Db) : Db :=
  { db with
    knowledgeBases := Table.update (·.id = id)
      (fun kb =>
        { kb with
          embeddingModel := model
          embeddingVersion := embeddingVersion
          indexedKnowledgeVersion := knowledgeVersion })
      db.knowledgeBases }

end KnowledgeBaseRepository

/-! ### Documents -/

/-- The arguments of `set_status`; the `expected` ones restrict the rows that are written. -/
structure StatusUpdate where
  document : DocumentId
  status : DocumentStatus
  error : Option DocumentError := none
  expectedStatus : Option (List DocumentStatus) := none
  expectedDocVersion : Option ℕ := none
deriving DecidableEq, Repr

namespace StatusUpdate

/-- The `WHERE` of the update. -/
def hits (u : StatusUpdate) (d : Document) : Bool :=
  d.visible && d.id = u.document && u.expectedStatus.all (d.status ∈ ·) &&
    u.expectedDocVersion.all (d.docVersion = ·)

/-- The `SET` of the update. -/
def write (u : StatusUpdate) (now : ℕ) (d : Document) : Document :=
  { d with status := u.status, error := u.error, updatedAt := now }

end StatusUpdate

namespace DocumentRepository

/-- `get_queryset`: the rows that are not deleted. -/
def queryset (db : Db) : List Document :=
  db.documents.filter (·.visible)

def getById (db : Db) (id : DocumentId) : Option Document :=
  (queryset db).find? (·.id = id)

/-- The documents of a knowledge base after the cursor, in the order of their ids. -/
def forKbAfter (db : Db) (kb : KbId) (after : Option DocumentId) (limit : ℕ) : List Document :=
  let rows := (queryset db).filter fun d => d.kbId = kb && after.all (· < d.id)
  (rows.insertionSort fun a b => a.id ≤ b.id).take limit

def countForKb (db : Db) (kb : KbId) : ℕ :=
  (queryset db).countP (·.kbId = kb)

def countInStatusesForKb (db : Db) (kb : KbId) (statuses : List DocumentStatus) : ℕ :=
  (queryset db).countP fun d => d.kbId = kb && d.status ∈ statuses

def findByContentHash (db : Db) (kb : KbId) (contentHash : String) : Option Document :=
  (queryset db).find? fun d => d.kbId = kb && d.contentHash = contentHash

/-- A new row.  The primary key and the key of knowledge base and content are unique, also
among the deleted rows, and the knowledge base must exist. -/
def create (d : Document) (db : Db) : Except Exn Db :=
  if db.documents.any fun old =>
      old.id = d.id || (old.kbId = d.kbId && old.contentHash = d.contentHash) then
    .error (.integrity "IntegrityError")
  else if db.knowledgeBases.any (·.id = d.kbId) = false then
    .error (.integrity "IntegrityError")
  else .ok { db with documents := db.documents ++ [d] }

/-- The documents that have been in one of the statuses since before a moment. -/
def stuckIn (db : Db) (statuses : List DocumentStatus) (notUpdatedSince : ℕ) : List Document :=
  let rows := (queryset db).filter fun d => d.status ∈ statuses && d.updatedAt < notUpdatedSince
  rows.insertionSort fun a b => a.updatedAt ≤ b.updatedAt

/-- A new version begins as an upload does. -/
def startNewVersion (now : ℕ) (id : DocumentId) (docVersion : ℕ) (db : Db) : Db :=
  { db with
    documents := Table.update (fun d => d.visible && d.id = id)
      (fun d =>
        { d with
          docVersion := docVersion
          status := .uploaded
          error := none
          updatedAt := now })
      db.documents }

/-- One `UPDATE`; the result is the number of rows written. -/
def setStatus (now : ℕ) (u : StatusUpdate) (db : Db) : ℕ × Db :=
  (db.documents.countP u.hits,
    { db with documents := Table.update u.hits (u.write now) db.documents })

def softDelete (now : ℕ) (id : DocumentId) (db : Db) : Db :=
  { db with
    documents := Table.update (fun d => d.visible && d.id = id)
      (fun d => { d with deletedAt := some now }) db.documents }

end DocumentRepository

/-! ### Chunks -/

namespace ChunkRepository

/-- The chunks of a knowledge base that retrieval sees. -/
def forRetrieval (db : Db) (kb : KbId) : List Chunk :=
  (db.chunks.filter fun c => c.kbId = kb && !c.superseded).insertionSort
    fun a b => a.row.seq ≤ b.row.seq

def countActiveForKb (db : Db) (kb : KbId) : ℕ :=
  db.chunks.countP fun c => c.kbId = kb && !c.superseded

/-- The chunks that an embedding task works on. -/
def activeForVersion (db : Db) (document : DocumentId) (docVersion : ℕ) : List Chunk :=
  (db.chunks.filter fun c =>
    c.documentId = document && c.docVersion = docVersion && !c.superseded).insertionSort
    fun a b => a.row.seq ≤ b.row.seq

def supersedeForDocument (document : DocumentId) (db : Db) : Db :=
  { db with
    chunks := Table.update (fun c => c.documentId = document && !c.superseded)
      (fun c => { c with superseded := true }) db.chunks }

/-- The new rows of a version, with fresh ids. -/
def newChunks (document : DocumentId) (kb : KbId) (docVersion : ℕ) :
    ChunkId → List ChunkRow → List Chunk
  | _, [] => []
  | id, row :: rows =>
      { id := id, documentId := document, kbId := kb, docVersion := docVersion, row := row } ::
        newChunks document kb docVersion (id + 1) rows

/-- Whether a row belongs to a version of a document. -/
def ofVersion (document : DocumentId) (docVersion : ℕ) (c : Chunk) : Bool :=
  c.documentId = document && c.docVersion = docVersion

/-- Whether some chunk of a version has an embedding, under any model and version. -/
def referenced (db : Db) (document : DocumentId) (docVersion : ℕ) : Bool :=
  db.chunks.any fun c => ofVersion document docVersion c && db.embeddings.any (·.chunkId = c.id)

/-- Delete what is left of the version, then insert.  `Embedding.chunk` is protected: the
deletion raises if a chunk has an embedding.  The document and the knowledge base of a row must
exist, and no two rows of the version may have the same `seq`. -/
def replaceForVersion (document : DocumentId) (kb : KbId) (docVersion : ℕ)
    (rows : List ChunkRow) (db : Db) : Except Exn (ℕ × Db) :=
  if referenced db document docVersion then .error (.integrity "ProtectedError")
  else if ¬(rows.map (·.seq)).Nodup then .error (.integrity "IntegrityError")
  else if rows ≠ [] ∧ (db.documents.any (·.id = document) &&
      db.knowledgeBases.any (·.id = kb)) = false then
    .error (.integrity "IntegrityError")
  else
    .ok (rows.length,
      { db with
        chunks := db.chunks.filter (fun c => !ofVersion document docVersion c) ++
          newChunks document kb docVersion db.nextChunk rows
        nextChunk := db.nextChunk + rows.length
        committed := (document, docVersion) :: db.committed })

end ChunkRepository

/-! ### Embeddings -/

namespace EmbeddingRepository

/-- Whether a chunk has an embedding under a model and a version. -/
def embedded (db : Db) (model : String) (embeddingVersion : ℕ) (chunk : ChunkId) : Bool :=
  db.embeddings.any fun e =>
    e.chunkId = chunk && e.model = model && e.embeddingVersion = embeddingVersion

/-- Insert, or overwrite the vector of the row with the same chunk, model and version.  Every
chunk must exist, and one statement may not write a row twice. -/
def upsert (chunks : List ChunkId) (model : String) (embeddingVersion : ℕ) (db : Db) :
    Except Exn (ℕ × Db) :=
  if chunks.any fun id => !db.chunks.any (·.id = id) then .error (.integrity "IntegrityError")
  else if ¬chunks.Nodup then .error (.other "ProgrammingError")
  else
    .ok (chunks.length,
      { db with
        embeddings := db.embeddings ++
          (chunks.filter fun id => !embedded db model embeddingVersion id).map
            fun id => { chunkId := id, model := model, embeddingVersion := embeddingVersion } })

def chunksWithoutEmbedding (db : Db) (chunks : List ChunkId) (model : String)
    (embeddingVersion : ℕ) : List ChunkId :=
  chunks.filter fun id => !embedded db model embeddingVersion id

/-- The embeddings of a model and version whose chunk is of the knowledge base. -/
def countForKbVersion (db : Db) (kb : KbId) (model : String) (embeddingVersion : ℕ) : ℕ :=
  db.embeddings.countP fun e =>
    e.model = model && e.embeddingVersion = embeddingVersion &&
      db.chunks.any fun c => c.kbId = kb && c.id = e.chunkId

end EmbeddingRepository

/-! ### Jobs -/

namespace EtlJobRepository

def find (db : Db) (key : EtlKey) : Option EtlJob :=
  db.etlJobs.find? (·.key = key)

/-- `get_or_create`, then marked as running, with one more attempt. -/
def start (key : EtlKey) (db : Db) : Db :=
  let jobs := if db.etlJobs.any (·.key = key) then db.etlJobs
    else db.etlJobs ++ [{ key := key, status := .running, attempt := 0 }]
  { db with
    etlJobs := Table.update (·.key = key)
      (fun job => { job with status := .running, attempt := job.attempt + 1 }) jobs }

def finish (key : EtlKey) (status : EtlStatus) (error : Option ErrorPayload) (db : Db) : Db :=
  { db with
    etlJobs := Table.update (·.key = key)
      (fun job => { job with status := status, error := error }) db.etlJobs }

end EtlJobRepository

/-- `REINDEX_ACTIVE_STATUSES`: at most one job of a knowledge base has one of them. -/
def reindexActiveStatuses : List ReindexStatus := [.pending, .rechunking, .embedding]

/-- The keyword arguments of an update of a reindex job; the absent columns stay. -/
structure JobUpdate where
  status : Option ReindexStatus := none
  targetModel : Option String := none
  totalChunks : Option ℕ := none
  embeddedChunks : Option ℕ := none
  rechunkCursor : Option DocumentId := none
  rechunkedDocuments : Option ℕ := none
  error : Option ErrorPayload := none
deriving DecidableEq, Repr

namespace KbReindexJobRepository

def getById (db : Db) (id : JobId) : Option KbReindexJob :=
  db.reindexJobs.find? (·.id = id)

def activeForKb (db : Db) (kb : KbId) : Option KbReindexJob :=
  db.reindexJobs.find? fun job => job.kbId = kb && job.status ∈ reindexActiveStatuses

/-- A new job, with the next id. -/
def create (job : KbReindexJob) (db : Db) : Db :=
  { db with reindexJobs := db.reindexJobs ++ [job] }

def apply (u : JobUpdate) (job : KbReindexJob) : KbReindexJob :=
  { job with
    status := u.status.getD job.status
    targetModel := u.targetModel.getD job.targetModel
    totalChunks := u.totalChunks.getD job.totalChunks
    embeddedChunks := u.embeddedChunks.getD job.embeddedChunks
    rechunkCursor := u.rechunkCursor.or job.rechunkCursor
    rechunkedDocuments := u.rechunkedDocuments.getD job.rechunkedDocuments
    error := u.error.or job.error }

def update (id : JobId) (u : JobUpdate) (db : Db) : Db :=
  { db with reindexJobs := Table.update (·.id = id) (apply u) db.reindexJobs }

end KbReindexJobRepository

end Lumina.Knowledge
