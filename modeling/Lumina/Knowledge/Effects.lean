import Lumina.Knowledge.Transactions
import Lumina.Library.Fallible

/-!
# What a transaction does to the tables

`transact_effect` says once, for all transactions, what a committed one has done to the tables other
than the job tables: nothing, or one of the things of `Effect`.  The invariants of the database are
derived from it.
-/

namespace Lumina.Knowledge

open Fallible (ok_of_bind)

/-- The tables without the jobs. -/
def Db.data (db : Db) : Db :=
  { db with
    etlJobs := []
    reindexJobs := [] }

/-- The row of a new document. -/
def newDocument (now : ℕ) (id : DocumentId) (kb : KbId) (mediaType contentHash : String) :
    Document where
  id := id
  kbId := kb
  mimeType := mediaType
  storageKey := buildDocumentKey kb id
  contentHash := contentHash
  updatedAt := now

/-- The transactions that write to the job tables at most. -/
def Tx.isPlain : Tx → Bool
  | .setStatus _ | .replaceForVersion _ _ _ _ | .createDocument _ _ _ _ | .reingest _ _
  | .delete _ | .upsert _ _ _ | .upsertForJob _ _ _ | .closeRound _ _ => false
  | _ => true

/-- What a committed transaction has done to the tables. -/
inductive Effect (now : ℕ) (db : Db) : Tx → Db → Prop where
  | plain {t : Tx} {db' : Db} (plain : t.isPlain) (data : db'.data = db.data) :
      Effect now db t db'
  | setStatus (u : StatusUpdate) :
      Effect now db (.setStatus u)
        { db with documents := Table.update u.hits (u.write now) db.documents }
  | replace {document : DocumentId} {kb : KbId} {docVersion : ℕ} {rows : List ChunkRow}
      (free : ChunkRepository.referenced db document docVersion = false)
      (keys : rows ≠ [] → ∃ d ∈ db.documents, d.id = document) :
      Effect now db (.replaceForVersion document kb docVersion rows)
        { db with
          chunks := db.chunks.filter (fun c => !ChunkRepository.ofVersion document docVersion c) ++
            ChunkRepository.newChunks document kb docVersion db.nextChunk rows
          nextChunk := db.nextChunk + rows.length
          committed := (document, docVersion) :: db.committed }
  | create {id : DocumentId} {kb : KbId} {mediaType contentHash : String}
      (fresh : ∀ d ∈ db.documents, d.id ≠ id)
      (key : ∃ row ∈ db.knowledgeBases, row.id = kb) :
      Effect now db (.createDocument id kb mediaType contentHash)
        { db with documents := db.documents ++ [newDocument now id kb mediaType contentHash] }
  | reingest {document : DocumentId} {staleBefore : ℕ} {d : Document}
      (found : DocumentRepository.getById db document = some d)
      (free : d.status ∈ inProgressStatuses → d.updatedAt ≤ staleBefore) :
      Effect now db (.reingest document staleBefore)
        (DocumentRepository.startNewVersion now document (d.docVersion + 1)
          (ChunkRepository.supersedeForDocument document db))
  | delete {document : DocumentId} {d : Document}
      (found : DocumentRepository.getById db document = some d) :
      Effect now db (.delete document)
        (DocumentRepository.softDelete now document
          (ChunkRepository.supersedeForDocument document db))
  | upsert {t : Tx} {chunks : List ChunkId} {model : String} {embeddingVersion : ℕ} {db' : Db}
      (writes : t = .upsert chunks model embeddingVersion ∨
        ∃ job reported, t = .upsertForJob job chunks reported ∧
          model = (if reported = "" then job.targetModel else reported) ∧
          embeddingVersion = job.targetEmbeddingVersion)
      (exist : ∀ id ∈ chunks, ∃ c ∈ db.chunks, c.id = id) (distinct : chunks.Nodup)
      (data : db'.data =
        { db.data with
          embeddings := db.embeddings ++
            (chunks.filter fun id =>
              !EmbeddingRepository.embedded db model embeddingVersion id).map fun id =>
                { chunkId := id, model := model, embeddingVersion := embeddingVersion } }) :
      Effect now db t db'
  | stay {job : KbReindexJob} {model : String} {db' : Db}
      (incomplete : (roundProgress db job model).isComplete = false)
      (data : db'.data = db.data) :
      Effect now db (.closeRound job model) db'
  | switch {job : KbReindexJob} {model : String} {db' : Db}
      (complete : (roundProgress db job model).isComplete)
      (data : db'.data =
        { db.data with
          knowledgeBases := Table.update (·.id = job.kbId)
            (fun kb =>
              { kb with
                embeddingModel := model
                embeddingVersion := job.targetEmbeddingVersion
                indexedKnowledgeVersion := job.targetKnowledgeVersion })
            db.knowledgeBases }) :
      Effect now db (.closeRound job model) db'

section

variable {now : ℕ} {db db' : Db}

theorem getById_mem {document : DocumentId} {d : Document}
    (h : DocumentRepository.getById db document = some d) :
  d ∈ db.documents ∧ d.visible ∧ d.id = document
  := by
  have hmem := List.mem_of_find?_eq_some h
  have hid := List.find?_some h
  rw [DocumentRepository.queryset, List.mem_filter] at hmem
  exact ⟨hmem.1, hmem.2, of_decide_eq_true hid⟩

theorem requireDocument_ok {document : DocumentId} {d : Document}
    (h : requireDocument db document = .ok d) :
  DocumentRepository.getById db document = some d
  := by
  unfold requireDocument at h
  split at h
  · cases h
  · cases h
    assumption

theorem effect_replace {document : DocumentId} {kb : KbId} {docVersion n : ℕ}
    {rows : List ChunkRow}
    (h : ChunkRepository.replaceForVersion document kb docVersion rows db = .ok (n, db')) :
  Effect now db (.replaceForVersion document kb docVersion rows) db'
  := by
  unfold ChunkRepository.replaceForVersion at h
  split_ifs at h with hfree hseq hkeys
  cases h
  apply Effect.replace
  · rw [Bool.eq_false_iff]
    apply hfree
  · intro hrows
    have hboth := eq_true_of_ne_false fun hfalse => hkeys ⟨hrows, hfalse⟩
    rw [Bool.and_eq_true, List.any_eq_true] at hboth
    obtain ⟨⟨d, hd, hid⟩, -⟩ := hboth
    exact ⟨d, hd, of_decide_eq_true hid⟩

theorem effect_create {id : DocumentId} {kb : KbId} {mediaType contentHash : String}
    (h : createDocument now db id kb mediaType contentHash = .ok db') :
  Effect now db (.createDocument id kb mediaType contentHash) db'
  := by
  unfold createDocument DocumentRepository.create at h
  split_ifs at h with hany hkb
  cases h
  apply Effect.create
  · intro d hd hid
    apply hany
    rw [List.any_eq_true]
    use d, hd
    rw [Bool.or_eq_true]
    left
    apply decide_eq_true hid
  · rw [Bool.not_eq_false, List.any_eq_true] at hkb
    obtain ⟨row, hrow, hid⟩ := hkb
    exact ⟨row, hrow, of_decide_eq_true hid⟩

theorem effect_reingest {document : DocumentId} {staleBefore n : ℕ}
    (h : reingest now db document staleBefore = .ok (n, db')) :
  Effect now db (.reingest document staleBefore) db'
  := by
  obtain ⟨d, hd, h⟩ := ok_of_bind h
  split_ifs at h with hbusy
  cases h
  apply Effect.reingest (requireDocument_ok hd)
  intro hstatus
  apply not_lt.mp fun hlt => hbusy ⟨hstatus, hlt⟩

theorem effect_delete {document : DocumentId} (h : deleteDocument now db document = .ok db') :
  Effect now db (.delete document) db'
  := by
  obtain ⟨d, hd, h⟩ := ok_of_bind h
  cases h
  apply Effect.delete (requireDocument_ok hd)

/-- What an upsert of embeddings has done. -/
theorem upsert_ok {chunks : List ChunkId} {model : String} {embeddingVersion n : ℕ}
    (h : EmbeddingRepository.upsert chunks model embeddingVersion db = .ok (n, db')) :
  (∀ id ∈ chunks, ∃ c ∈ db.chunks, c.id = id) ∧ chunks.Nodup ∧
    db' =
      { db with
        embeddings := db.embeddings ++
          (chunks.filter fun id =>
            !EmbeddingRepository.embedded db model embeddingVersion id).map fun id =>
              { chunkId := id, model := model, embeddingVersion := embeddingVersion } }
  := by
  unfold EmbeddingRepository.upsert at h
  split_ifs at h with hmissing hdistinct
  cases h
  refine ⟨?_, hdistinct, rfl⟩
  intro id hid
  rw [Bool.not_eq_true, List.any_eq_false] at hmissing
  have hany : (db.chunks.any (·.id = id)) = true := by
    apply eq_true_of_ne_false fun hfalse => hmissing id hid (congrArg not hfalse)
  rw [List.any_eq_true] at hany
  obtain ⟨c, hc, hcid⟩ := hany
  exact ⟨c, hc, of_decide_eq_true hcid⟩

theorem effect_upsertForJob {job after : KbReindexJob} {chunks : List ChunkId}
    {reported : String} (h : upsertForJob db job chunks reported = .ok (after, db')) :
  Effect now db (.upsertForJob job chunks reported) db'
  := by
  obtain ⟨⟨n, stored⟩, hupsert, h⟩ := ok_of_bind h
  obtain ⟨exist, distinct, hstored⟩ := upsert_ok hupsert
  have same : db'.data = stored.data := by
    dsimp only at h
    split at h
    · obtain ⟨_, -, h⟩ := ok_of_bind h
      cases h
      rfl
    · cases h
      rfl
  apply Effect.upsert (.inr ⟨job, reported, rfl, rfl, rfl⟩) exist distinct
  rw [same, hstored]
  rfl

theorem data_enterEmbedding (job : KbReindexJob) (db : Db) :
  (enterEmbedding db job).2.data = db.data
  := by
  unfold enterEmbedding
  split
  all_goals rfl

theorem effect_closeRound {job : KbReindexJob} {model : String} :
  Effect now db (.closeRound job model) (closeRound db job model)
  := by
  unfold closeRound
  dsimp only
  split
  next hready =>
    rw [readyToSwitch, Bool.and_eq_true] at hready
    apply Effect.switch hready.2
    rfl
  next hready =>
    apply Effect.stay
    · rw [Bool.eq_false_iff]
      intro hcomplete
      apply hready
      rw [readyToSwitch, Bool.and_eq_true]
      exact ⟨rfl, hcomplete⟩
    · rfl

end

/-- What a committed transaction has done to the tables other than the job tables. -/
theorem transact_effect {cfg : Settings} {now : ℕ} {db db' : Db} {t : Tx} {r : t.Reply}
    (h : transact cfg now t db = .ok (r, db')) :
  Effect now db t db'
  := by
  cases t with
  | setStatus u =>
    cases h
    apply Effect.setStatus
  | replaceForVersion document kb docVersion rows => apply effect_replace h
  | createDocument id kb mediaType contentHash =>
    obtain ⟨_, hcreate, h⟩ := ok_of_bind h
    cases h
    apply effect_create hcreate
  | reingest document staleBefore => apply effect_reingest h
  | delete document =>
    obtain ⟨_, hdelete, h⟩ := ok_of_bind h
    cases h
    apply effect_delete hdelete
  | upsert chunks model embeddingVersion =>
    obtain ⟨exist, distinct, rfl⟩ := upsert_ok h
    apply Effect.upsert (.inl rfl) exist distinct rfl
  | upsertForJob job chunks reported => apply effect_upsertForJob h
  | closeRound job model =>
    cases h
    apply effect_closeRound
  | enterEmbedding job =>
    apply Effect.plain rfl
    have hdb : enterEmbedding db job = (r, db') := Except.ok.inj h
    rw [← data_enterEmbedding job db, hdb]
  | startReindex kb targetModel rechunk =>
    apply Effect.plain rfl
    obtain ⟨_, -, h⟩ := ok_of_bind h
    split at h
    · cases h
    · split_ifs at h
      cases h
      rfl
  | loadIngestTarget _ | loadEmbedTarget _ | checkUpload _ _ | loadReindexJob _ =>
    apply Effect.plain rfl
    obtain ⟨_, -, h⟩ := ok_of_bind h
    cases h
    rfl
  | _ =>
    cases h
    apply Effect.plain rfl
    rfl

end Lumina.Knowledge
