import Lumina.Knowledge.System

/-!
# Which operations the programs perform

The operations of each kind of program, whatever their replies.  What no program of a kind
performs, no activity of that kind does.
-/

namespace Lumina.Knowledge

open Interleaving

namespace Op

/-- The operations of the requests. -/
def byRequest : Op → Bool
  | .tx (.checkUpload _ _) | .tx (.createDocument _ _ _ _) | .tx (.reingest _ _)
  | .tx (.delete _) | .tx (.stuckIn _ _) | .tx (.startReindex _ _ _) | .clock
  | .putObject (.document _ _) _ | .deleteObject _ | .enqueue _ _ _ => true
  | _ => false

/-- The operations of a reindex. -/
def byReindex : Op → Bool
  | .tx (.loadReindexJob _) | .tx (.updateReindexJob _ _) | .tx (.rechunkBatch _)
  | .tx (.enterEmbedding _) | .tx (.missingChunks _) | .tx (.upsertForJob _ _ _)
  | .tx (.closeRound _ _) | .tx (.reingest _ _) | .clock | .embed _ _ | .enqueue _ _ _ => true
  | _ => false

/-- The operations of an embedding task. -/
def byEmbedding : Op → Bool
  | .tx (.loadEmbedTarget _) | .tx (.beginJob _) | .tx (.setStatus _) | .tx (.finishJob _ _ _)
  | .tx (.pendingChunks _ _ _ _) | .tx (.upsert _ _ _) | .embed _ _ | .resolvedModel _
  | .rememberResolution _ _ | .acquire _ | .release _ | .enqueue _ _ _ | .retry
  | .unfinished => true
  | _ => false

/-- The operations of the batches of an embedding task. -/
def byBatch : Op → Bool
  | .tx (.pendingChunks _ _ _ _) | .tx (.upsert _ _ _) | .embed _ _ | .resolvedModel _
  | .rememberResolution _ _ | .unfinished => true
  | _ => false

/-- The operations of an ingestion. -/
def byIngestion : Op → Bool
  | .tx (.loadIngestTarget _) | .tx (.beginJob _) | .tx (.setStatus _) | .tx (.finishJob _ _ _)
  | .tx (.cleanSucceeded _ _) | .tx (.replaceForVersion _ _ _ _) | .tx (.lastRunningStage _)
  | .tx (.failingStage _ _) | .getObject _ | .putObject (.cleaned _ _) _ | .extractIsolated _ _
  | .acquire _ | .release _ | .enqueue _ _ _ | .retry => true
  | _ => false

end Op

theorem uses_tx {P : Op → Prop} {t : Tx} (h : P (.tx t)) : (tx t).Uses P := by
  apply Program.uses_perform h

variable (cfg : Settings)

/-! ### Requests -/

theorem uses_reingest {P : Op → Prop} (hclock : P .clock) (hreingest : ∀ d n, P (.tx (.reingest d n)))
    (henqueue : ∀ t n delay, P (.enqueue t n delay)) (document : DocumentId) :
  (DocumentService.reingest cfg document).Uses P
  := by
  refine Program.Uses.bind' (Program.uses_perform hclock) ?_
  intro now
  refine Program.Uses.bind' (uses_tx (hreingest _ _)) ?_
  intro version
  refine Program.Uses.bind' (Program.uses_perform (henqueue _ _ _)) ?_
  intro _
  trivial

theorem uses_upload (kb : KbId) (id : DocumentId) (content mediaType : String) :
  (DocumentService.upload cfg kb id content mediaType).Uses (·.byRequest)
  := by
  refine Program.Uses.bind' (uses_tx rfl) ?_
  intro _
  refine Program.Uses.bind' (Program.uses_perform rfl) ?_
  intro _
  apply Program.Uses.bind'
  · refine Program.Uses.handle (uses_tx rfl) ?_
    intro e
    apply Program.Uses.bind'
    · refine Program.Uses.handle (Program.uses_perform rfl) ?_
      intro _
      trivial
    · intro _
      split
      · trivial
      · trivial
  · intro _
    refine Program.Uses.bind' (Program.uses_perform rfl) ?_
    intro _
    trivial

theorem uses_sendAll (stuck : List Document) :
  (StuckDocumentRescueService.sendAll stuck).Uses (·.byRequest)
  := by
  induction stuck with
  | nil => trivial
  | cons d stuck ih =>
    refine Program.Uses.bind' (Program.uses_perform rfl) ?_
    intro _
    apply ih

theorem uses_request (r : Request) : (r.code cfg).Uses (·.byRequest) := by
  cases r with
  | upload kb id content mediaType => apply uses_upload
  | reingest document =>
    apply uses_reingest
    · rfl
    · exact fun _ _ => rfl
    · exact fun _ _ _ => rfl
  | delete document => exact uses_tx rfl
  | rescue =>
    refine Program.Uses.bind' (Program.uses_perform rfl) ?_
    intro now
    refine Program.Uses.bind' (uses_tx rfl) ?_
    intro stuck
    apply uses_sendAll
  | startReindex kb targetModel rechunk =>
    refine Program.Uses.bind' (uses_tx rfl) ?_
    intro job
    refine Program.Uses.bind' (Program.uses_perform rfl) ?_
    intro _
    trivial

/-! ### Reindexing -/

/-- What a reindex performs.  A status that it writes is never that of a job that has not begun. -/
structure ReindexOps (P : Op → Prop) : Prop where
  load : ∀ job, P (.tx (.loadReindexJob job))
  update : ∀ job u, u.status ≠ some .pending → P (.tx (.updateReindexJob job u))
  rechunkBatch : ∀ job, P (.tx (.rechunkBatch job))
  enterEmbedding : ∀ job, P (.tx (.enterEmbedding job))
  missingChunks : ∀ job, P (.tx (.missingChunks job))
  upsertForJob : ∀ job chunks reported, P (.tx (.upsertForJob job chunks reported))
  closeRound : ∀ job model, P (.tx (.closeRound job model))
  reingest : ∀ document staleBefore, P (.tx (.reingest document staleBefore))
  clock : P .clock
  embed : ∀ texts model, P (.embed texts model)
  enqueue : ∀ task sentFor delay, P (.enqueue task sentFor delay)

theorem reindexOps_byReindex : ReindexOps (·.byReindex) := by
  constructor
  all_goals
    intros
    rfl

section

open KbReindexService

variable {P : Op → Prop} (ops : ReindexOps P)

include ops

theorem uses_embedEach (job : KbReindexJob) (batches : List (List (ChunkId × String))) :
  (embedEach job batches).Uses P
  := by
  induction batches generalizing job with
  | nil => trivial
  | cons batch rest ih =>
    refine Program.Uses.bind' (Program.uses_perform (ops.embed _ _)) ?_
    intro model
    refine Program.Uses.bind' (uses_tx (ops.upsertForJob _ _ _)) ?_
    intro job
    apply ih

theorem uses_advanceEmbedding (job : KbReindexJob) :
  (advanceEmbedding job).Uses P
  := by
  apply Program.Uses.bind'
  · refine Program.Uses.bind' (uses_tx (ops.missingChunks _)) ?_
    intro pending
    apply uses_embedEach ops
  · intro _
    refine Program.Uses.bind' (uses_tx (ops.closeRound _ _)) ?_
    intro _
    exact uses_tx (ops.load _)

theorem uses_reingestEach (documents : List DocumentId) (processed : ℕ)
    (last : Option DocumentId) :
  (reingestEach cfg documents processed last).Uses P
  := by
  induction documents generalizing processed last with
  | nil => trivial
  | cons document rest ih =>
    apply Program.Uses.bind'
    · apply Program.Uses.attempt
      apply uses_reingest
      · apply ops.clock
      · apply ops.reingest
      · apply ops.enqueue
    · intro r
      cases r with
      | ok _ => apply ih
      | error e =>
        dsimp only
        split
        · trivial
        · trivial

theorem uses_advanceRechunk (job : KbReindexJob) :
  (advanceRechunk cfg job).Uses P
  := by
  refine Program.Uses.bind' (uses_tx (ops.rechunkBatch _)) ?_
  intro batch
  apply (uses_reingestEach cfg ops _ _ _).bind'
  intro done
  dsimp only
  split
  · refine Program.Uses.bind' (uses_tx (ops.update _ _ nofun)) ?_
    intro _
    exact uses_tx (ops.load _)
  · split
    · refine Program.Uses.bind' (uses_tx (ops.update _ _ nofun)) ?_
      intro _
      trivial
    · refine Program.Uses.bind' (uses_tx (ops.enterEmbedding _)) ?_
      intro entered
      split
      · refine Program.Uses.bind' (uses_tx (ops.load _)) ?_
        intro job
        apply uses_advanceEmbedding ops
      · trivial

theorem uses_advance (job : JobId) : (advance cfg job).Uses P := by
  refine Program.Uses.bind' (uses_tx (ops.load _)) ?_
  intro view
  split
  · trivial
  · apply Program.Uses.bind'
    · unfold KbReindexService.begin
      split
      · refine Program.Uses.bind' (uses_tx (ops.update _ _ ?_)) ?_
        · intro h
          apply nextStatus_ne_pending _ _ (Option.some.inj h)
        · intro _
          exact uses_tx (ops.load _)
      · trivial
    · intro view
      apply Program.Uses.handle
      · split
        · apply uses_advanceRechunk cfg ops
        · apply uses_advanceEmbedding ops
      · intro e
        refine Program.Uses.bind' (uses_tx (ops.update _ _ nofun)) ?_
        intro _
        trivial

theorem uses_reindexRounds (job : JobId) (rounds : ℕ) (view : KbReindexJob) :
  (reindexRounds cfg job rounds view).Uses P
  := by
  induction rounds generalizing view with
  | zero =>
    unfold reindexRounds
    split
    · trivial
    · refine Program.Uses.bind' (Program.uses_perform (ops.enqueue _ _ _)) ?_
      intro _
      trivial
  | succ rounds ih =>
    unfold reindexRounds
    split
    · trivial
    · apply (uses_advance cfg ops job).bind'
      intro next
      split
      · refine Program.Uses.bind' (Program.uses_perform (ops.enqueue _ _ _)) ?_
        intro _
        trivial
      · apply ih

theorem uses_reindexKb (job : JobId) : (reindexKb cfg job).Uses P := by
  apply (uses_advance cfg ops job).attempt.bind'
  intro r
  cases r with
  | error e =>
    dsimp only
    split
    · trivial
    · trivial
  | ok view =>
    apply (uses_reindexRounds cfg ops _ _ _).bind'
    intro view
    trivial

end

/-! ### Embedding -/

/-- The parts that the document tasks have in common. -/
theorem uses_documentTask {P : Op → Prop} {kind : SlotKind} {message : Message}
    {service : Prog DocumentStatus} {exhausted : Exn → ℕ → Prog Unit} (hservice : service.Uses P)
    (hexhausted : ∀ e attempts, (exhausted e attempts).Uses P) (hacquire : P (.acquire kind))
    (hrelease : P (.release kind)) (hretry : P .retry)
    (henqueue : ∀ delay, P (.enqueue message.task message.sentFor delay)) :
  (documentTask cfg kind message service exhausted).Uses P
  := by
  refine Program.Uses.bind' (Program.uses_perform hacquire) ?_
  intro granted
  split
  · apply Program.Uses.ensure
    · apply hservice.attempt.bind'
      intro r
      cases r with
      | ok status => trivial
      | error e =>
        dsimp only
        split
        · trivial
        · split
          · apply (hexhausted e _).bind'
            intro _
            trivial
          · refine Program.Uses.bind' (Program.uses_perform hretry) ?_
            intro _
            trivial
    · apply Program.uses_perform hrelease
  · refine Program.Uses.bind' (Program.uses_perform (henqueue _)) ?_
    intro _
    trivial

section

open EmbeddingService

theorem uses_embedBatches (target : EmbedTarget) (batches : ℕ) (lookupModel : String)
    (pending : List (ChunkId × String)) (embedded : ℕ) :
  (embedBatches target batches lookupModel pending embedded).Uses (·.byBatch)
  := by
  induction batches generalizing lookupModel pending embedded with
  | zero =>
    cases pending with
    | nil => trivial
    | cons chunk chunks =>
      refine Program.Uses.bind' (Program.uses_perform rfl) ?_
      intro _
      trivial
  | succ batches ih =>
    cases pending with
    | nil => trivial
    | cons chunk chunks =>
      refine Program.Uses.bind' (Program.uses_perform rfl) ?_
      intro model
      refine Program.Uses.bind' (uses_tx rfl) ?_
      intro _
      split
      · refine Program.Uses.bind' (Program.uses_perform rfl) ?_
        intro _
        refine Program.Uses.bind' (uses_tx rfl) ?_
        intro pending
        apply ih
      · apply ih

theorem uses_embedPending (batches : ℕ) (target : EmbedTarget) :
  (embedPending batches target).Uses (·.byBatch)
  := by
  refine Program.Uses.bind' (Program.uses_perform rfl) ?_
  intro lookupModel
  refine Program.Uses.bind' (uses_tx rfl) ?_
  intro pending
  apply uses_embedBatches

theorem byEmbedding_of_byBatch {op : Op} (h : op.byBatch) : op.byEmbedding := by
  cases op with
  | tx t =>
    cases t with
    | pendingChunks _ _ _ _ | upsert _ _ _ => rfl
    | _ => cases h
  | embed _ _ | resolvedModel _ | rememberResolution _ _ | unfinished => rfl
  | _ => cases h

theorem uses_failPermanently (target : EmbedTarget) (e : Exn) :
  (failPermanently target e).Uses (·.byEmbedding)
  := by
  refine Program.Uses.bind' (uses_tx rfl) ?_
  intro _
  refine Program.Uses.bind' (uses_tx rfl) ?_
  intro marked
  split
  · trivial
  · trivial

theorem uses_promote (target : EmbedTarget) (embedded : ℕ) :
  (promote target embedded).Uses (·.byEmbedding)
  := by
  refine Program.Uses.bind' (uses_tx rfl) ?_
  intro _
  refine Program.Uses.bind' (uses_tx rfl) ?_
  intro promoted
  split
  · trivial
  · trivial

theorem uses_embeddingFailed (target : EmbedTarget) (e : Exn) :
  (embeddingFailed target e).Uses (·.byEmbedding)
  := by
  unfold embeddingFailed
  split
  · apply uses_failPermanently
  · refine Program.Uses.bind' (uses_tx rfl) ?_
    intro _
    trivial

theorem uses_embedDocument (batches : ℕ) (document : DocumentId) :
  (EmbeddingService.embedDocument batches document).Uses (·.byEmbedding)
  := by
  refine Program.Uses.bind' (uses_tx rfl) ?_
  intro target
  split
  · trivial
  · refine Program.Uses.bind' (uses_tx rfl) ?_
    intro _
    refine Program.Uses.bind' (uses_tx rfl) ?_
    intro moved
    split
    · trivial
    · apply Program.Uses.bind'
      · apply Program.Uses.attempt
        apply (uses_embedPending batches target).mono
        exact fun _ => byEmbedding_of_byBatch
      · intro r
        cases r with
        | ok embedded => apply uses_promote
        | error e => apply uses_embeddingFailed

theorem uses_embedTask (batches : ℕ) (message : Message) (document : DocumentId) :
  (Lumina.Knowledge.embedDocument cfg batches message document).Uses (·.byEmbedding)
  := by
  apply uses_documentTask
  · apply (uses_embedDocument batches document).bind'
    intro _
    trivial
  · intro e attempts
    refine Program.Uses.bind' (uses_tx rfl) ?_
    intro _
    trivial
  · rfl
  · rfl
  · rfl
  · exact fun _ => rfl

end

/-! ### Ingestion -/

section

open IngestionService

theorem uses_stage {α : Type} (target : IngestTarget) (st : Stage) {work : Prog α}
    (hwork : work.Uses (·.byIngestion)) :
  (stage target st work).Uses (·.byIngestion)
  := by
  refine Program.Uses.bind' (uses_tx rfl) ?_
  intro _
  apply Program.Uses.bind'
  · apply hwork.handle
    intro e
    refine Program.Uses.bind' (uses_tx rfl) ?_
    intro _
    trivial
  · intro result
    refine Program.Uses.bind' (uses_tx rfl) ?_
    intro _
    trivial

theorem uses_resumeCleaned (target : IngestTarget) :
  (resumeCleaned cfg target).Uses (·.byIngestion)
  := by
  refine Program.Uses.bind' (uses_tx rfl) ?_
  intro succeeded
  split
  · apply Program.Uses.handle
    · refine Program.Uses.bind' (Program.uses_perform rfl) ?_
      intro payload
      apply (Program.uses_ofExcept _).bind'
      intro doc
      trivial
    · intro e
      split
      all_goals trivial
  · trivial

theorem uses_materialiseCleaned (target : IngestTarget) :
  (materialiseCleaned cfg target).Uses (·.byIngestion)
  := by
  apply (uses_resumeCleaned cfg target).bind'
  intro resumed
  cases resumed with
  | some doc => trivial
  | none =>
    apply Program.Uses.bind'
    · apply uses_stage
      refine Program.Uses.bind' (Program.uses_perform rfl) ?_
      intro content
      exact Program.uses_perform rfl
    · intro raw
      apply uses_stage
      refine Program.Uses.bind' (Program.uses_perform rfl) ?_
      intro _
      trivial

theorem uses_run (target : IngestTarget) : (run cfg target).Uses (·.byIngestion) := by
  refine Program.Uses.bind' (uses_tx rfl) ?_
  intro _
  apply (uses_materialiseCleaned cfg target).bind'
  intro cleaned
  refine Program.Uses.bind' (uses_tx rfl) ?_
  intro _
  apply Program.Uses.bind'
  · apply uses_stage
    refine Program.Uses.bind' (uses_tx rfl) ?_
    intro _
    trivial
  · intro chunks
    refine Program.Uses.bind' (uses_tx rfl) ?_
    intro _
    refine Program.Uses.bind' (Program.uses_perform rfl) ?_
    intro _
    trivial

theorem uses_ingest (document : DocumentId) : (ingest cfg document).Uses (·.byIngestion) := by
  refine Program.Uses.bind' (uses_tx rfl) ?_
  intro target
  apply (uses_run cfg target).handle
  intro e
  split
  · refine Program.Uses.bind' (uses_tx rfl) ?_
    intro stage
    refine Program.Uses.bind' (uses_tx rfl) ?_
    intro _
    trivial
  · trivial

theorem uses_ingestTask (message : Message) (document : DocumentId) :
  (ingestDocument cfg message document).Uses (·.byIngestion)
  := by
  apply uses_documentTask
  · apply (uses_ingest cfg document).bind'
    intro _
    trivial
  · intro e attempts
    refine Program.Uses.bind' (uses_tx rfl) ?_
    intro stage
    refine Program.Uses.bind' (uses_tx rfl) ?_
    intro _
    trivial
  · rfl
  · rfl
  · rfl
  · exact fun _ => rfl

end

end Lumina.Knowledge
