import Lumina.Knowledge.Provenance
import Lumina.Knowledge.Versions

/-!
# Ingesting a document again

A message that is delivered again runs the ingestion again, from whatever the earlier runs have
left behind.  Run alone, with every operation done, it ends well and leaves the same chunks,
except that the chunks cannot be replaced when one of them has an embedding; and an original
that cannot be extracted fails again.
-/

namespace Lumina.Knowledge

open Interleaving Transition

/-- Every operation is done. -/
def Shared.done (cfg : Settings) (me : Option Message) (op : Op) (s : Shared) :
    Except Exn op.Reply × Shared :=
  (s.perform cfg me op .done).getD (.error (.other "unanswered"), s)

theorem Shared.done_tx {cfg : Settings} (me : Option Message) {s : Shared} {x : Tx} {r : x.Reply}
    {db : Db} (h : transact cfg s.now x s.db = .ok (r, db)) :
  s.done cfg me (.tx x) = (.ok r, { s with db := db, writers := s.writersAfter me x })
  := by
  simp only [Shared.done, Shared.perform, h, Option.getD_some]

theorem Shared.done_tx_error {cfg : Settings} (me : Option Message) {s : Shared} {x : Tx}
    {e : Exn} (h : transact cfg s.now x s.db = .error e) :
  s.done cfg me (.tx x) = (.error e, s)
  := by
  simp only [Shared.done, Shared.perform, h, Option.getD_some]

/-- Putting an object changes what is found under its key only. -/
theorem Shared.object_put {s t : Shared} {key : ObjectKey} {content : String}
    (h : t.objects = (key, content) :: s.objects) (key' : ObjectKey) :
  t.object key' = if key' = key then some content else s.object key'
  := by
  unfold Shared.object
  rw [h, List.lookup_cons]
  split
  next heq => rw [if_pos (eq_of_beq heq)]
  next hne => rw [if_neg (ne_of_beq_false hne)]

/-! ### The state between the operations -/

section

open IngestionService

variable (cfg : Settings) (contents : DocumentId → String) (target : IngestTarget)

/-- What an ingestion finds that nothing interferes with: its document in some status, some
chunks and embeddings, the original, and an artifact that the original leads to, if any. -/
structure Ready (chunks : List Chunk) (next : ChunkId) (embeddings : List Embedding)
    (status : DocumentStatus) (s : Shared) : Prop where
  chunks : s.db.chunks = chunks
  next : s.db.nextChunk = next
  embeddings : s.db.embeddings = embeddings
  document : ∃ d, DocumentRepository.getById s.db target.documentId = some d ∧ d.status = status
  knowledgeBase : s.db.knowledgeBases.any (·.id = target.kbId)
  original : s.object target.storageKey = some (contents target.documentId)
  key : ∃ kb document, target.storageKey = .document kb document
  artifact : ∀ payload, s.object (artifactKey target) = some payload →
    ∃ doc, IsCleaned cfg contents target doc ∧ payload = cfg.etl.toJson doc

end

section

open IngestionService
open Program hiding pure

variable {cfg : Settings} {contents : DocumentId → String} {target : IngestTarget}
  {chunks : List Chunk} {next : ChunkId} {embeddings : List Embedding} {status : DocumentStatus}
  {me : Option Message} {s : Shared}

namespace Ready

/-- Jobs do not matter. -/
theorem jobs (h : Ready cfg contents target chunks next embeddings status s) {t : Shared}
    (hdb : t.db.data = s.db.data) (hobjects : t.objects = s.objects) :
  Ready cfg contents target chunks next embeddings status t
  := by
  have object : ∀ key, t.object key = s.object key := by
    intro key
    unfold Shared.object
    rw [hobjects]
  have rows : t.db.chunks = s.db.chunks := (congrArg Db.chunks hdb :)
  have nextChunk : t.db.nextChunk = s.db.nextChunk := (congrArg Db.nextChunk hdb :)
  have vectors : t.db.embeddings = s.db.embeddings := (congrArg Db.embeddings hdb :)
  have documents : t.db.documents = s.db.documents := (congrArg Db.documents hdb :)
  have knowledgeBases : t.db.knowledgeBases = s.db.knowledgeBases :=
    (congrArg Db.knowledgeBases hdb :)
  constructor
  · rw [rows, h.chunks]
  · rw [nextChunk, h.next]
  · rw [vectors, h.embeddings]
  · unfold DocumentRepository.getById DocumentRepository.queryset
    rw [documents]
    apply h.document
  · rw [knowledgeBases]
    apply h.knowledgeBase
  · rw [object]
    apply h.original
  · apply h.key
  · intro payload
    rw [object]
    apply h.artifact

/-- A transaction that writes to the job tables at most. -/
theorem tx {x : Tx} {r : x.Reply} {db : Db}
    (h : Ready cfg contents target chunks next embeddings status s)
    (hx : transact cfg s.now x s.db = .ok (r, db)) (hdb : db.data = s.db.data) :
  (tx x).Yields (Shared.done cfg me) s (.ok r)
    (Ready cfg contents target chunks next embeddings status)
  := by
  have ends := Shared.done_tx me hx
  apply Yields.perform
  · rw [ends]
  · rw [ends]
    apply Ready.jobs h
    · apply hdb
    · rfl

theorem beginJob (h : Ready cfg contents target chunks next embeddings status s) (key : EtlKey) :
  (Lumina.Knowledge.tx (.beginJob key)).Yields (Shared.done cfg me) s (.ok ())
    (Ready cfg contents target chunks next embeddings status)
  := by
  exact h.tx rfl rfl

theorem finishJob (h : Ready cfg contents target chunks next embeddings status s) (key : EtlKey)
    (status' : EtlStatus) (error : Option ErrorPayload) :
  (Lumina.Knowledge.tx (.finishJob key status' error)).Yields (Shared.done cfg me) s (.ok ())
    (Ready cfg contents target chunks next embeddings status)
  := by
  exact h.tx rfl rfl

variable (me) in
/-- The document gets another status. -/
theorem setStatus (h : Ready cfg contents target chunks next embeddings status s)
    (status' : DocumentStatus) (error : Option DocumentError) :
  ∃ n, (setStatus target.documentId status' error).Yields (Shared.done cfg me) s (.ok n)
    (Ready cfg contents target chunks next embeddings status')
  := by
  have ends : Shared.done cfg me
      (.tx (.setStatus { document := target.documentId, status := status', error := error })) s =
      _ := Shared.done_tx me rfl
  refine ⟨_, Yields.perform (congrArg Prod.fst ends) ?_⟩
  rw [ends]
  refine { h with document := ?_ }
  obtain ⟨d, hd, -⟩ := h.document
  obtain ⟨-, hvisible, hid⟩ := getById_mem hd
  refine ⟨_, (getById_setStatus _ _ _ _).trans (congrArg _ hd), ?_⟩
  beta_reduce
  rw [if_pos]
  · rfl
  · simp only [StatusUpdate.hits, hvisible, hid, Option.all_none, decide_true, Bool.and_self]

/-- The work of a stage, in its job. -/
theorem stage {α : Type} {work : Prog α} {a : α} {chunks' : List Chunk} {next' : ChunkId}
    (st : Stage) (h : Ready cfg contents target chunks next embeddings status s)
    (hwork : ∀ t, Ready cfg contents target chunks next embeddings status t →
      work.Yields (Shared.done cfg me) t (.ok a)
        (Ready cfg contents target chunks' next' embeddings status)) :
  (stage target st work).Yields (Shared.done cfg me) s (.ok a)
    (Ready cfg contents target chunks' next' embeddings status)
  := by
  apply (h.beginJob _).bind
  intro t ht
  apply (hwork t ht).handle.bind
  intro u hu
  apply (hu.finishJob _ _ _).bind
  intro v hv
  apply Yields.pure hv

theorem stage_error {α : Type} {work : Prog α} {e : Exn} (st : Stage)
    (h : Ready cfg contents target chunks next embeddings status s)
    (hwork : ∀ t, Ready cfg contents target chunks next embeddings status t →
      work.Yields (Shared.done cfg me) t (.error e)
        (Ready cfg contents target chunks next embeddings status)) :
  (IngestionService.stage target st work).Yields (Shared.done cfg me) s (.error e)
    (Ready cfg contents target chunks next embeddings status)
  := by
  apply (h.beginJob _).bind
  intro t ht
  apply Yields.bind_error
  apply (hwork t ht).handle_error
  intro u hu
  apply (hu.finishJob _ _ _).bind
  intro v hv
  apply Yields.raise hv

theorem getObject (h : Ready cfg contents target chunks next embeddings status s)
    {key : ObjectKey} {content : String} (hobject : s.object key = some content) :
  (perform (.getObject key)).Yields (Shared.done cfg me) s (.ok content)
    (Ready cfg contents target chunks next embeddings status)
  := by
  have ends : s.done cfg me (.getObject key) = (.ok content, s) := by
    simp only [Shared.done, Shared.perform, hobject, Option.getD_some]
  apply Yields.perform
  · rw [ends]
  · rw [ends]
    apply h

theorem getObject_none (h : Ready cfg contents target chunks next embeddings status s)
    {key : ObjectKey} (hobject : s.object key = none) :
  (perform (.getObject key)).Yields (Shared.done cfg me) s
    (.error (.domain { cls := .objectNotFound, message := "物件不存在" }))
    (Ready cfg contents target chunks next embeddings status)
  := by
  have ends : s.done cfg me (.getObject key) =
      (.error (.domain { cls := .objectNotFound, message := "物件不存在" }), s) := by
    simp only [Shared.done, Shared.perform, hobject, Option.getD_some]
  apply Yields.perform
  · rw [ends]
  · rw [ends]
    apply h

variable (me) in
/-- An earlier artifact is read, or there is none to be read. -/
theorem resumeCleaned (laws : EtlLaws cfg.etl)
    (h : Ready cfg contents target chunks next embeddings status s) :
  ∃ resumed, (∀ doc, resumed = some doc → IsCleaned cfg contents target doc) ∧
    (IngestionService.resumeCleaned cfg target).Yields (Shared.done cfg me) s (.ok resumed)
      (Ready cfg contents target chunks next embeddings status)
  := by
  have asked : (Lumina.Knowledge.tx
      (.cleanSucceeded target.documentId target.docVersion)).Yields (Shared.done cfg me) s
      (.ok (decide (jobStatus s.db target.documentId target.docVersion .clean = some .succeeded)))
      fun t => Ready cfg contents target chunks next embeddings status t ∧
        t.object (artifactKey target) = s.object (artifactKey target) := by
    apply Yields.perform
    · rfl
    · exact ⟨h.jobs rfl rfl, rfl⟩
  by_cases succeeded :
      jobStatus s.db target.documentId target.docVersion .clean = some .succeeded
  · rw [decide_eq_true succeeded] at asked
    cases hobject : s.object (artifactKey target) with
    | none =>
      refine ⟨none, nofun, ?_⟩
      apply asked.bind
      rintro t ⟨ht, same⟩
      apply Yields.handle_error
      · apply Yields.bind_error
        apply ht.getObject_none (same.trans hobject)
      · intro u hu
        apply Yields.pure hu
    | some payload =>
      obtain ⟨doc, hdoc, rfl⟩ := h.artifact payload hobject
      refine ⟨some doc, ?_, ?_⟩
      · rintro doc' ⟨⟩
        apply hdoc
      · apply asked.bind
        rintro t ⟨ht, same⟩
        apply Yields.handle
        apply (ht.getObject (same.trans hobject)).bind
        intro u hu
        rw [laws.fromJson_of_cleaned hdoc]
        apply Yields.pure hu
  · rw [decide_eq_false succeeded] at asked
    refine ⟨none, nofun, ?_⟩
    apply asked.bind
    intro t ht
    apply Yields.pure ht.1

/-- The original is extracted, with whatever outcome the extraction has. -/
theorem original_extracted (h : Ready cfg contents target chunks next embeddings status s)
    {r : Except Exn ExtractedDoc}
    (hr : cfg.etl.extractIsolated (contents target.documentId) target.mediaType = r) :
  (do
      let content ← perform (.getObject target.storageKey)
      perform (.extractIsolated content target.mediaType)).Yields (Shared.done cfg me) s r
    (Ready cfg contents target chunks next embeddings status)
  := by
  apply (h.getObject h.original).bind
  intro t ht
  apply Yields.perform
  · apply hr
  · apply ht

/-- The artifact is stored. -/
theorem cleanStage {raw : ExtractedDoc}
    (h : Ready cfg contents target chunks next embeddings status s)
    (hraw : IsCleaned cfg contents target (cfg.etl.clean raw)) :
  (IngestionService.cleanStage cfg target raw).Yields (Shared.done cfg me) s
    (.ok (cfg.etl.clean raw)) (Ready cfg contents target chunks next embeddings status)
  := by
  apply h.stage
  intro t ht
  apply Yields.bind (P := Ready cfg contents target chunks next embeddings status)
  · have object : ∀ key, (Shared.done cfg me
        (.putObject (artifactKey target) (cfg.etl.toJson (cfg.etl.clean raw))) t).2.object key =
        if key = artifactKey target then some (cfg.etl.toJson (cfg.etl.clean raw))
          else t.object key := Shared.object_put rfl
    apply Yields.perform
    · rfl
    · refine { ht with original := ?_, artifact := ?_ }
      · rw [object, if_neg, ht.original]
        obtain ⟨kb, document, hkey⟩ := ht.key
        rw [hkey]
        exact nofun
      · intro payload hpayload
        rw [object, if_pos rfl] at hpayload
        cases hpayload
        exact ⟨_, hraw, rfl⟩
  · intro u hu
    apply Yields.pure hu

variable (me) in
/-- The cleaned document, or the error of the extraction. -/
theorem materialiseCleaned (laws : EtlLaws cfg.etl)
    (h : Ready cfg contents target chunks next embeddings status s) :
  (IngestionService.materialiseCleaned cfg target).Yields (Shared.done cfg me) s
    (cleanedOf cfg (contents target.documentId) target.mediaType)
    (Ready cfg contents target chunks next embeddings status)
  := by
  obtain ⟨resumed, hresumed, resume⟩ := h.resumeCleaned me laws
  apply resume.bind
  intro t ht
  cases resumed with
  | some doc =>
    rw [hresumed doc rfl]
    apply Yields.pure ht
  | none =>
    cases hr : cfg.etl.extractIsolated (contents target.documentId) target.mediaType with
    | error e =>
      have failed : cleanedOf cfg (contents target.documentId) target.mediaType = .error e := by
        unfold cleanedOf
        rw [hr]
        rfl
      rw [failed]
      apply Yields.bind_error
      apply ht.stage_error
      intro u hu
      apply hu.original_extracted hr
    | ok raw =>
      have cleaned : cleanedOf cfg (contents target.documentId) target.mediaType =
          .ok (cfg.etl.clean raw) := by
        unfold cleanedOf
        rw [hr]
        rfl
      rw [cleaned]
      apply Yields.bind
      · apply ht.stage
        intro u hu
        apply hu.original_extracted hr
      · intro u hu
        apply hu.cleanStage cleaned

/-- The chunks of the version, with the rows of a cleaned document. -/
def replaced (cfg : Settings) (target : IngestTarget) (doc : ExtractedDoc) (chunks : List Chunk)
    (next : ChunkId) : List Chunk :=
  chunks.filter (fun c =>
      !ChunkRepository.ofVersion target.documentId target.docVersion c) ++
    ChunkRepository.newChunks target.documentId target.kbId target.docVersion next
      (rowsOf cfg doc target.chunkConfig)

/-- Whether a chunk of the version has an embedding. -/
theorem referenced_eq (h : Ready cfg contents target chunks next embeddings status s)
    (document : DocumentId) (docVersion : ℕ) :
  ChunkRepository.referenced s.db document docVersion =
    ChunkRepository.referenced { chunks := chunks, embeddings := embeddings } document docVersion
  := by
  unfold ChunkRepository.referenced
  rw [h.chunks, h.embeddings]

/-- The numbers of the rows are distinct. -/
theorem nodup_rowsOf (laws : EtlLaws cfg.etl) (doc : ExtractedDoc) (config : ChunkConfig) :
  ((rowsOf cfg doc config).map (·.seq)).Nodup
  := by
  have same : (rowsOf cfg doc config).map (·.seq) =
      (cfg.etl.chunkDocument doc config).map (·.seq) := by
    unfold rowsOf
    rw [List.map_map]
    rfl
  rw [same, laws.seq]
  apply List.nodup_range

/-- The chunks are replaced if none of them has an embedding. -/
theorem chunkStage (laws : EtlLaws cfg.etl)
    (h : Ready cfg contents target chunks next embeddings status s) (doc : ExtractedDoc)
    (free : ChunkRepository.referenced { chunks := chunks, embeddings := embeddings }
      target.documentId target.docVersion = false) :
  (IngestionService.chunkStage cfg target doc).Yields (Shared.done cfg me) s
    (.ok (cfg.etl.chunkDocument doc target.chunkConfig))
    (Ready cfg contents target (replaced cfg target doc chunks next)
      (next + (rowsOf cfg doc target.chunkConfig).length) embeddings status)
  := by
  apply h.stage
  intro t ht
  have keys : (t.db.documents.any (·.id = target.documentId) &&
      t.db.knowledgeBases.any (·.id = target.kbId)) = true := by
    rw [Bool.and_eq_true]
    constructor
    · obtain ⟨d, hd, -⟩ := ht.document
      obtain ⟨hmem, -, hid⟩ := getById_mem hd
      apply List.any_eq_true.mpr ⟨d, hmem, decide_eq_true hid⟩
    · apply ht.knowledgeBase
  have committed : transact cfg t.now (.replaceForVersion target.documentId target.kbId
      target.docVersion (rowsOf cfg doc target.chunkConfig)) t.db =
      .ok ((rowsOf cfg doc target.chunkConfig).length,
        { t.db with
          chunks := replaced cfg target doc t.db.chunks t.db.nextChunk
          nextChunk := t.db.nextChunk + (rowsOf cfg doc target.chunkConfig).length
          committed := (target.documentId, target.docVersion) :: t.db.committed }) := by
    simp only [transact, ChunkRepository.replaceForVersion, ht.referenced_eq, free, keys,
      nodup_rowsOf laws doc target.chunkConfig, not_true, Bool.false_eq_true, if_false,
      Bool.true_eq_false, and_false]
    rfl
  have ends := Shared.done_tx me committed
  apply Yields.bind (P := Ready cfg contents target (replaced cfg target doc chunks next)
    (next + (rowsOf cfg doc target.chunkConfig).length) embeddings status)
  · apply Yields.perform (congrArg Prod.fst ends)
    rw [show (Shared.done cfg me _ t).2 = _ from congrArg Prod.snd ends]
    refine { ht with chunks := ?_, next := ?_ }
    · rw [ht.chunks, ht.next]
    · rw [ht.next]
  · intro u hu
    apply Yields.pure hu

theorem chunkStage_error (h : Ready cfg contents target chunks next embeddings status s)
    (doc : ExtractedDoc)
    (bound : ChunkRepository.referenced { chunks := chunks, embeddings := embeddings }
      target.documentId target.docVersion = true) :
  (IngestionService.chunkStage cfg target doc).Yields (Shared.done cfg me) s
    (.error (.integrity "ProtectedError"))
    (Ready cfg contents target chunks next embeddings status)
  := by
  apply h.stage_error
  intro t ht
  apply Yields.bind_error
  have raised : transact cfg t.now (.replaceForVersion target.documentId target.kbId
      target.docVersion (rowsOf cfg doc target.chunkConfig)) t.db =
      .error (.integrity "ProtectedError") := by
    simp only [transact, ChunkRepository.replaceForVersion, ht.referenced_eq, bound, if_true]
  have ends := Shared.done_tx_error me raised
  apply Yields.perform (congrArg Prod.fst ends)
  rw [show (Shared.done cfg me _ t).2 = _ from congrArg Prod.snd ends]
  apply ht

/-- A message is sent. -/
theorem enqueue (h : Ready cfg contents target chunks next embeddings status s) (task : Task)
    (sentFor delay : ℕ) :
  (perform (.enqueue task sentFor delay)).Yields (Shared.done cfg me) s (.ok true)
    (Ready cfg contents target chunks next embeddings status)
  := by
  cases me with
  | none =>
    apply Yields.perform
    · rfl
    · apply Ready.jobs h
      · rfl
      · rfl
  | some message =>
    by_cases same : message.task = task
    · have ends : Shared.done cfg (some message) (.enqueue task sentFor delay) s =
          (.ok true, s.replace message 0) := by
        simp only [Shared.done, Shared.perform, if_pos same, Option.getD_some]
      apply Yields.perform (congrArg Prod.fst ends)
      rw [ends]
      apply Ready.jobs h
      · rfl
      · rfl
    · have ends : Shared.done cfg (some message) (.enqueue task sentFor delay) s =
          (.ok true, s.send task 0 sentFor) := by
        simp only [Shared.done, Shared.perform, if_neg same, Option.getD_some]
      apply Yields.perform (congrArg Prod.fst ends)
      rw [ends]
      apply Ready.jobs h
      · rfl
      · rfl

/-- The run of an ingestion up to the chunk stage. -/
theorem run_until_chunks {r : Except Exn IngestionResult} {Q : Shared → Prop}
    (laws : EtlLaws cfg.etl) (h : Ready cfg contents target chunks next embeddings status s)
    {doc : ExtractedDoc} (hdoc : IsCleaned cfg contents target doc)
    (hrest : ∀ t, Ready cfg contents target chunks next embeddings .cleaned t →
      Yields (Shared.done cfg me)
        (do
          let chunks ← IngestionService.chunkStage cfg target doc
          let _ ← IngestionService.setStatus target.documentId .chunked
          let _ ← perform (.enqueue (.embedDocument target.documentId) target.docVersion 0)
          pure
            ({ documentId := target.documentId
               status := .chunked
               chunkCount := chunks.length } : IngestionResult)) t r Q) :
  (run cfg target).Yields (Shared.done cfg me) s r Q
  := by
  obtain ⟨n, parsing⟩ := h.setStatus me .parsing none
  apply parsing.bind
  intro t ht
  have materialised := ht.materialiseCleaned me laws
  rw [hdoc] at materialised
  apply materialised.bind
  intro u hu
  obtain ⟨n', cleaned⟩ := hu.setStatus me .cleaned none
  apply cleaned.bind
  apply hrest

/-- A run that replaces the chunks. -/
theorem run_ok (laws : EtlLaws cfg.etl)
    (h : Ready cfg contents target chunks next embeddings status s) {doc : ExtractedDoc}
    (hdoc : IsCleaned cfg contents target doc)
    (free : ChunkRepository.referenced { chunks := chunks, embeddings := embeddings }
      target.documentId target.docVersion = false) :
  (run cfg target).Yields (Shared.done cfg me) s
    (.ok
      { documentId := target.documentId
        status := .chunked
        chunkCount := (cfg.etl.chunkDocument doc target.chunkConfig).length })
    (Ready cfg contents target (replaced cfg target doc chunks next)
      (next + (rowsOf cfg doc target.chunkConfig).length) embeddings .chunked)
  := by
  apply h.run_until_chunks laws hdoc
  intro t ht
  apply (ht.chunkStage laws doc free).bind
  intro u hu
  obtain ⟨n, chunked⟩ := hu.setStatus me .chunked none
  apply chunked.bind
  intro v hv
  apply (hv.enqueue _ _ _).bind
  intro x hx
  apply Yields.pure hx

/-- A run that cannot replace the chunks. -/
theorem run_bound (laws : EtlLaws cfg.etl)
    (h : Ready cfg contents target chunks next embeddings status s) {doc : ExtractedDoc}
    (hdoc : IsCleaned cfg contents target doc)
    (bound : ChunkRepository.referenced { chunks := chunks, embeddings := embeddings }
      target.documentId target.docVersion = true) :
  (run cfg target).Yields (Shared.done cfg me) s (.error (.integrity "ProtectedError"))
    (Ready cfg contents target chunks next embeddings .cleaned)
  := by
  apply h.run_until_chunks laws hdoc
  intro t ht
  apply Yields.bind_error
  apply ht.chunkStage_error doc bound

/-- A run whose original cannot be extracted. -/
theorem run_error (laws : EtlLaws cfg.etl)
    (h : Ready cfg contents target chunks next embeddings status s) {e : Exn}
    (he : cleanedOf cfg (contents target.documentId) target.mediaType = .error e) :
  (run cfg target).Yields (Shared.done cfg me) s (.error e)
    (Ready cfg contents target chunks next embeddings .parsing)
  := by
  obtain ⟨n, parsing⟩ := h.setStatus me .parsing none
  apply parsing.bind
  intro t ht
  have materialised := ht.materialiseCleaned me laws
  rw [he] at materialised
  apply Yields.bind_error
  apply materialised

variable (me) in
/-- The record of a permanent failure. -/
theorem failPermanently (h : Ready cfg contents target chunks next embeddings status s) (e : Exn) :
  (IngestionService.failPermanently target e).Yields (Shared.done cfg me) s
    (.ok
      { documentId := target.documentId
        status := .failed
        chunkCount := 0 })
    (Ready cfg contents target chunks next embeddings .failed)
  := by
  have asked : (Lumina.Knowledge.tx
      (.failingStage target.documentId target.docVersion)).Yields (Shared.done cfg me) s
      (.ok (failingStage s.db target.documentId target.docVersion))
      (Ready cfg contents target chunks next embeddings status) := h.tx rfl rfl
  apply asked.bind
  intro t ht
  obtain ⟨n, failed⟩ := ht.setStatus me .failed _
  apply failed.bind
  intro u hu
  apply Yields.pure hu

end Ready

/-! ### The whole ingestion -/

/-- The active rows of a version, in the order of their numbers. -/
def activeRows (db : Db) (document : DocumentId) (docVersion : ℕ) : List ChunkRow :=
  (ChunkRepository.activeForVersion db document docVersion).map (·.row)

/-- The rows of a version whose chunks are all active. -/
theorem activeRows_eq {db : Db} {document : DocumentId} {docVersion : ℕ}
    (active : ∀ c ∈ db.chunks, ChunkRepository.ofVersion document docVersion c →
      c.superseded = false) :
  activeRows db document docVersion =
    (versionRows db document docVersion).insertionSort fun a b => a.seq ≤ b.seq
  := by
  unfold activeRows versionRows ChunkRepository.activeForVersion
  rw [List.map_insertionSort (r := fun a b : Chunk => a.row.seq ≤ b.row.seq)
    (s := fun a b : ChunkRow => a.seq ≤ b.seq)]
  · congr 2
    apply List.filter_congr
    intro c hc
    by_cases h : ChunkRepository.ofVersion document docVersion c
    · rw [h, active c hc h]
      rw [ofVersion_iff] at h
      rw [h.1, h.2]
      simp
    · rw [Bool.eq_false_iff.mpr h]
      rw [ofVersion_iff, not_and] at h
      by_cases hd : c.documentId = document
      · rw [decide_eq_false (h hd)]
        simp
      · rw [decide_eq_false hd]
        simp
  · exact fun _ _ _ _ => Iff.rfl

end

section

open IngestionService

variable (cfg : Settings) (contents : DocumentId → String) (me : Option Message) (s : Shared)
  (d : Document)

/-- The end of another run of the ingestion of a document, alone and with every operation done. -/
def again : Except Exn IngestionResult × Shared :=
  (ingest cfg d.id).run (Shared.done cfg me) s

/-- The ingestion of a document may be run again: it ends well, it leaves the active rows of a
chunk stage that has been committed as they are and in their order, these are the rows that the
original leads to, and a document that has not failed does not fail. -/
structure Idempotent : Prop where
  completes : ∃ r, (again cfg me s d).1 = .ok r
  same : (d.id, d.docVersion) ∈ s.db.committed →
    activeRows (again cfg me s d).2.db d.id d.docVersion = activeRows s.db d.id d.docVersion
  whole : ∀ rows, Expected cfg contents s.db d rows →
    activeRows (again cfg me s d).2.db d.id d.docVersion =
      rows.insertionSort fun a b => a.seq ≤ b.seq
  status : d.status ≠ .failed →
    ∀ d', DocumentRepository.getById (again cfg me s d).2.db d.id = some d' → d'.status ≠ .failed

/-- No chunk of the current version has an embedding, and the original can be extracted, unless
this has failed before. -/
def Repeatable (db : Db) : Prop :=
  ChunkRepository.referenced db d.id d.docVersion = false ∧
    ∀ e, cleanedOf cfg (contents d.id) d.mimeType = .error e →
      e.isPermanentFailure ∧ d.status = .failed

end

section

open IngestionService
open Program hiding pure

variable {cfg : Settings} {contents : DocumentId → String} {me : Option Message} {s : Shared}
  {d : Document}

/-- The snapshot of a document. -/
def targetOf (cfg : Settings) (d : Document) (kb : KnowledgeBase) : IngestTarget where
  documentId := d.id
  kbId := d.kbId
  docVersion := d.docVersion
  storageKey := d.storageKey
  mediaType := d.mimeType
  chunkConfig := cfg.chunkConfigFrom kb.config

/-- A document that is found can be loaded, and what its ingestion needs is there. -/
theorem ready_of_canonical (canonical : Canonical cfg contents s) (stored : Stored contents s)
    (hd : DocumentRepository.getById s.db d.id = some d) :
  ∃ kb, KnowledgeBaseRepository.getById s.db d.kbId = some kb ∧
    loadIngestTarget cfg s.db d.id = .ok (targetOf cfg d kb) ∧
    Ready cfg contents (targetOf cfg d kb) s.db.chunks s.db.nextChunk s.db.embeddings d.status s
  := by
  obtain ⟨hmem, -, -⟩ := getById_mem hd
  obtain ⟨row, hrow, hid⟩ := canonical.tables.wellFormed.documentKb d hmem
  obtain ⟨kb, hkb⟩ : ∃ kb, KnowledgeBaseRepository.getById s.db d.kbId = some kb := by
    rw [← Option.isSome_iff_exists, KnowledgeBaseRepository.getById, List.find?_isSome]
    exact ⟨row, hrow, decide_eq_true hid⟩
  have load : loadIngestTarget cfg s.db d.id = .ok (targetOf cfg d kb) := by
    have document : requireDocument s.db d.id = .ok d := by
      unfold requireDocument
      rw [hd]
    have knowledgeBase : requireKnowledgeBase s.db d.kbId = .ok kb := by
      unfold requireKnowledgeBase
      rw [hkb]
    unfold loadIngestTarget
    rw [document]
    change (requireKnowledgeBase s.db d.kbId >>= _) = _
    rw [knowledgeBase]
    rfl
  refine ⟨kb, hkb, load, ?_⟩
  constructor
  · rfl
  · rfl
  · rfl
  · exact ⟨d, hd, rfl⟩
  · apply List.any_eq_true.mpr ⟨row, hrow, decide_eq_true hid⟩
  · apply stored d hmem
  · exact ⟨_, _, canonical.tables.storageKey d hmem⟩
  · intro payload hpayload
    apply isCleaned_of_artifact (known_of_load rfl load) canonical hpayload

namespace Ready

variable {target : IngestTarget} {chunks : List Chunk} {next : ChunkId}
  {embeddings : List Embedding} {status : DocumentStatus}

/-- The target is loaded. -/
theorem load (h : Ready cfg contents target chunks next embeddings status s)
    (hload : loadIngestTarget cfg s.db target.documentId = .ok target) :
  (Lumina.Knowledge.tx (.loadIngestTarget target.documentId)).Yields (Shared.done cfg me) s
    (.ok target) (Ready cfg contents target chunks next embeddings status)
  := by
  have loaded : transact cfg s.now (.loadIngestTarget target.documentId) s.db =
      .ok (target, s.db) := by
    simp only [transact, hload]
    rfl
  apply h.tx loaded rfl

variable (me) in
/-- An ingestion whose run ends well. -/
theorem ingest_ok {r : IngestionResult} {P : Shared → Prop}
    (h : Ready cfg contents target chunks next embeddings status s)
    (hload : loadIngestTarget cfg s.db target.documentId = .ok target)
    (hrun : ∀ t, Ready cfg contents target chunks next embeddings status t →
      (run cfg target).Yields (Shared.done cfg me) t (.ok r) P) :
  (ingest cfg target.documentId).Yields (Shared.done cfg me) s (.ok r) P
  := by
  apply (h.load hload).bind
  intro t ht
  apply (hrun t ht).handle

variable (me) in
/-- An ingestion whose run raises an exception. -/
theorem ingest_error {e : Exn} {status' : DocumentStatus}
    (h : Ready cfg contents target chunks next embeddings status s)
    (hload : loadIngestTarget cfg s.db target.documentId = .ok target)
    (hrun : ∀ t, Ready cfg contents target chunks next embeddings status t →
      (run cfg target).Yields (Shared.done cfg me) t (.error e)
        (Ready cfg contents target chunks next embeddings status')) :
  if e.isPermanentFailure then
    ∃ r, (ingest cfg target.documentId).Yields (Shared.done cfg me) s (.ok r)
      (Ready cfg contents target chunks next embeddings .failed)
  else
    (ingest cfg target.documentId).Yields (Shared.done cfg me) s (.error e)
      (Ready cfg contents target chunks next embeddings status')
  := by
  split
  next permanent =>
    refine ⟨{ documentId := target.documentId, status := .failed, chunkCount := 0 }, ?_⟩
    apply (h.load hload).bind
    intro t ht
    apply (hrun t ht).handle_error
    intro u hu
    rw [if_pos permanent]
    apply hu.failPermanently me e
  next permanent =>
    apply (h.load hload).bind
    intro t ht
    apply (hrun t ht).handle_error
    intro u hu
    rw [if_neg permanent]
    apply Yields.raise hu

end Ready

/-- A chunk with an embedding is one of a chunk stage. -/
theorem committed_of_referenced (canonical : Canonical cfg contents s)
    {document : DocumentId} {docVersion : ℕ}
    (h : ChunkRepository.referenced s.db document docVersion = true) :
  (document, docVersion) ∈ s.db.committed
  := by
  obtain ⟨c, hc, hboth⟩ := List.any_eq_true.mp h
  rw [Bool.and_eq_true, ofVersion_iff] at hboth
  rw [← hboth.1.1, ← hboth.1.2]
  apply canonical.tables.stage c hc

/-- The active rows before, when the chunk stage has been committed. -/
theorem activeRows_of_canonical (canonical : Canonical cfg contents s)
    (hd : DocumentRepository.getById s.db d.id = some d) :
  activeRows s.db d.id d.docVersion =
    (versionRows s.db d.id d.docVersion).insertionSort fun a b => a.seq ≤ b.seq
  := by
  obtain ⟨hmem, hvisible, -⟩ := getById_mem hd
  apply activeRows_eq
  intro c hc hv
  rw [ofVersion_iff] at hv
  apply canonical.tables.active d hmem hvisible c hc hv.1 hv.2

/-- The active rows after the chunks have been replaced. -/
theorem activeRows_of_replaced (target : IngestTarget) {doc : ExtractedDoc} {t : Shared}
    (ht : t.db.chunks = Ready.replaced cfg target doc s.db.chunks s.db.nextChunk) :
  activeRows t.db target.documentId target.docVersion =
    (rowsOf cfg doc target.chunkConfig).insertionSort fun a b => a.seq ≤ b.seq
  := by
  rw [activeRows_eq, versionRows_replace_self ht]
  intro c hc hv
  rw [ht] at hc
  obtain hc | hc := List.mem_append.mp hc
  · have hnot := List.of_mem_filter hc
    rw [hv] at hnot
    cases hnot
  · apply (mem_newChunks hc).2.2.2

/-- The rows that a document leads to. -/
theorem Expected.eq {db : Db} {rows : List ChunkRow} {kb : KnowledgeBase} {doc : ExtractedDoc}
    (h : Expected cfg contents db d rows)
    (hkb : KnowledgeBaseRepository.getById db d.kbId = some kb)
    (hdoc : cleanedOf cfg (contents d.id) d.mimeType = .ok doc) :
  rows = rowsOf cfg doc (cfg.chunkConfigFrom kb.config)
  := by
  obtain ⟨config, doc', hconfig, hdoc', hrows⟩ := h
  rw [hkb] at hconfig
  rw [hdoc] at hdoc'
  cases hconfig
  cases hdoc'
  apply hrows

/-- An ingestion that replaces the chunks. -/
theorem idempotent_of_ok (laws : EtlLaws cfg.etl) (canonical : Canonical cfg contents s)
    (stored : Stored contents s) (hd : DocumentRepository.getById s.db d.id = some d)
    (free : ChunkRepository.referenced s.db d.id d.docVersion = false) {doc : ExtractedDoc}
    (hdoc : cleanedOf cfg (contents d.id) d.mimeType = .ok doc) :
  Idempotent cfg contents me s d
  := by
  obtain ⟨kb, hkb, hload, ready⟩ := ready_of_canonical canonical stored hd
  rw [ready.referenced_eq] at free
  obtain ⟨hresult, after⟩ := ready.ingest_ok me hload fun t ht =>
    ht.run_ok laws hdoc free
  have rows : activeRows (again cfg me s d).2.db d.id d.docVersion =
      (rowsOf cfg doc (cfg.chunkConfigFrom kb.config)).insertionSort fun a b => a.seq ≤ b.seq :=
    activeRows_of_replaced (targetOf cfg d kb) after.chunks
  obtain ⟨hmem, -, -⟩ := getById_mem hd
  constructor
  · exact ⟨_, hresult⟩
  · intro hcommitted
    rw [rows, activeRows_of_canonical canonical hd]
    rw [(canonical.tables.rows d hmem d.docVersion hcommitted).eq hkb hdoc]
  · intro rows' expected
    rw [rows, expected.eq hkb hdoc]
  · intro _ d' hd'
    obtain ⟨d'', hd'', hstatus⟩ := after.document
    have same : some d' = some d'' := hd'.symm.trans hd''
    cases same
    rw [hstatus]
    exact nofun

/-- Ingesting again is idempotent exactly if no chunk of the current version has an embedding,
and the original can be extracted or has failed before. -/
theorem idempotent_iff_repeatable (laws : EtlLaws cfg.etl) (canonical : Canonical cfg contents s)
    (stored : Stored contents s) (hd : DocumentRepository.getById s.db d.id = some d) :
  Idempotent cfg contents me s d ↔ Repeatable cfg contents d s.db
  := by
  obtain ⟨kb, hkb, hload, ready⟩ := ready_of_canonical canonical stored hd
  obtain ⟨hmem, -, -⟩ := getById_mem hd
  cases hdoc : cleanedOf cfg (contents d.id) d.mimeType with
  | ok doc =>
    constructor
    · intro h
      constructor
      · rw [Bool.eq_false_iff]
        intro bound
        rw [ready.referenced_eq] at bound
        have fails := ready.ingest_error me hload fun t ht => ht.run_bound laws hdoc bound
        obtain ⟨r, hr⟩ := h.completes
        have failed : (again cfg me s d).1 = .error (.integrity "ProtectedError") := fails.1
        rw [failed] at hr
        cases hr
      · intro e he
        rw [hdoc] at he
        cases he
    · rintro ⟨free, -⟩
      apply idempotent_of_ok laws canonical stored hd free hdoc
  | error e =>
    have fails := ready.ingest_error me hload fun t ht => ht.run_error laws hdoc
    have uncommitted : (d.id, d.docVersion) ∉ s.db.committed := by
      intro hcommitted
      obtain ⟨_, _, _, hcleaned, -⟩ := canonical.tables.rows d hmem d.docVersion hcommitted
      rw [hdoc] at hcleaned
      cases hcleaned
    constructor
    · intro h
      constructor
      · rw [Bool.eq_false_iff]
        intro bound
        apply uncommitted (committed_of_referenced canonical bound)
      · intro e' he'
        rw [hdoc] at he'
        cases he'
        split at fails
        next permanent =>
          refine ⟨permanent, ?_⟩
          by_contra hstatus
          obtain ⟨r, -, after⟩ := fails
          obtain ⟨d', hd', hfailed⟩ := after.document
          apply h.status hstatus d' hd' hfailed
        next permanent =>
          obtain ⟨r, hr⟩ := h.completes
          have failed : (again cfg me s d).1 = .error e := fails.1
          rw [failed] at hr
          cases hr
    · rintro ⟨-, hextract⟩
      obtain ⟨permanent, hstatus⟩ := hextract e hdoc
      rw [if_pos permanent] at fails
      obtain ⟨r, hr, -⟩ := fails
      constructor
      · exact ⟨r, hr⟩
      · intro hcommitted
        exact absurd hcommitted uncommitted
      · rintro rows ⟨_, _, _, hcleaned, -⟩
        rw [hdoc] at hcleaned
        cases hcleaned
      · intro hne
        exact absurd hstatus hne

/-- In every state of a run in which the originals stay as they were uploaded, ingesting a document
again is idempotent exactly if no chunk of its current version has an embedding, and its original
can be extracted or has failed before. -/
theorem idempotent_iff (laws : EtlLaws cfg.etl) {h : List (World × Action)} {w : World}
    (run : (system cfg).Run h w) (stored : ∀ u ∈ Machine.states h w, Stored contents u.shared)
    (hd : DocumentRepository.getById w.shared.db d.id = some d) (me : Option Message) :
  Idempotent cfg contents me w.shared d ↔ Repeatable cfg contents d w.shared.db
  := by
  apply idempotent_iff_repeatable laws _ _ hd
  · apply canonical_of_run laws run stored w List.mem_cons_self
  · apply stored w List.mem_cons_self

end

/-! ### Small runs -/

theorem sampleSettings_laws : EtlLaws sampleSettings.etl := by
  constructor
  · rintro ⟨blocks, docMeta⟩
    cases blocks with
    | nil => rfl
    | cons block blocks => rfl
  · rintro ⟨blocks, docMeta⟩ config
    cases blocks with
    | nil => rfl
    | cons block blocks =>
      simp only [sampleSettings]
      split
      · rfl
      · rfl

instance (contents : DocumentId → String) (s : Shared) : Decidable (Stored contents s) := by
  unfold Stored
  infer_instance

/-- The originals of the small runs. -/
def sampleContents (_ : DocumentId) : String := "a"

/-- A message of the small runs, delivered again. -/
def sampleMessage : Message where
  task := .ingestDocument 7
  sentFor := 1
  charge := 9

/-- A document is uploaded, ingested and embedded. -/
def readySample : List Action :=
  ingestSample ++ .deliver 0 2 :: works 0 6 ++ .work 0 (.reported "m") :: works 0 4 ++ [.finish 0]

/-- A computed run in which the originals of the small runs stay as they were uploaded. -/
theorem exists_run_stored (as : List Action) (p : World → Bool)
    (hexec : (((system sampleSettings).execWhile
      (fun w _ => decide (Stored sampleContents w.shared)) as sampleWorld).any fun w =>
        decide (Stored sampleContents w.shared) && p w) = true) :
  ∃ h w, (system sampleSettings).Run h w ∧
    (∀ u ∈ Machine.states h w, Stored sampleContents u.shared) ∧ p w = true
  := by
  obtain ⟨h, w, run, guard, hw⟩ := Machine.exists_run_of_execWhile (M := system sampleSettings)
    as _ _ sampleWorld_initial hexec
  rw [Bool.and_eq_true] at hw
  refine ⟨h, w, run, ?_, hw.2⟩
  intro u hu
  obtain rfl | hu := List.mem_cons.mp hu
  · apply of_decide_eq_true hw.1
  · obtain ⟨x, hx, rfl⟩ := List.mem_map.mp hu
    apply of_decide_eq_true (guard x hx)

theorem idempotent_iff_ingestSample :
  ∃ h w d, (system sampleSettings).Run h w ∧
    (∀ u ∈ Machine.states h w, Stored sampleContents u.shared) ∧
    DocumentRepository.getById w.shared.db 7 = some d ∧ (7, 1) ∈ w.shared.db.committed ∧
    (Idempotent sampleSettings sampleContents (some sampleMessage) w.shared d ↔
      Repeatable sampleSettings sampleContents d w.shared.db)
  := by
  obtain ⟨h, w, run, stored, hw⟩ := exists_run_stored ingestSample
    (fun w => (DocumentRepository.getById w.shared.db 7).isSome &&
      decide ((7, 1) ∈ w.shared.db.committed))
    (by decide)
  rw [Bool.and_eq_true, Option.isSome_iff_exists] at hw
  obtain ⟨⟨d, hd⟩, hcommitted⟩ := hw
  have found : DocumentRepository.getById w.shared.db d.id = some d := by
    rw [(getById_mem hd).2.2]
    apply hd
  exact ⟨h, w, d, run, stored, hd, of_decide_eq_true hcommitted,
    idempotent_iff sampleSettings_laws run stored found (some sampleMessage)⟩

/-- A document that is ready cannot be ingested again: its chunks are protected by their
embeddings. -/
theorem not_idempotent_readySample :
  ¬∀ h w d, (system sampleSettings).Run h w →
    (∀ u ∈ Machine.states h w, Stored sampleContents u.shared) →
    DocumentRepository.getById w.shared.db d.id = some d →
    Idempotent sampleSettings sampleContents (some sampleMessage) w.shared d
  := by
  obtain ⟨h, w, run, stored, hw⟩ := exists_run_stored readySample
    (fun w => (DocumentRepository.getById w.shared.db 7).any fun d =>
      d.status = .ready &&
        (again sampleSettings (some sampleMessage) w.shared d).1 =
          .error (.integrity "ProtectedError"))
    (by decide)
  rw [Option.any_eq_true] at hw
  obtain ⟨d, hd, hagain⟩ := hw
  rw [Bool.and_eq_true, decide_eq_true_eq, decide_eq_true_eq] at hagain
  intro claim
  have found : DocumentRepository.getById w.shared.db d.id = some d := by
    rw [(getById_mem hd).2.2]
    apply hd
  obtain ⟨r, hr⟩ := (claim h w d run stored found).completes
  rw [hagain.2] at hr
  cases hr

end Lumina.Knowledge
