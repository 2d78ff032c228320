import Lumina.Knowledge.Versions

/-!
# The switch of a reindex

A round of the embedding phase closes with two counts: the active chunks of the knowledge base,
and the embeddings of the target pair whose chunk is of the knowledge base, superseded or not.
So an embedded chunk that is superseded by now makes up for an active one without an embedding.
The round switches exactly if there are enough of the former for all of the latter, and then it
is safe exactly if there are none of the latter.
-/

namespace Lumina.Knowledge

open Transition

/-! ### The two counts of a round -/

section Counts

variable (db : Db) (kb : KbId) (model : String) (embeddingVersion : ℕ)

/-- The active chunks of a knowledge base that have no embedding of a pair. -/
def missing : ℕ :=
  db.chunks.countP fun c =>
    (c.kbId = kb && !c.superseded) &&
      !EmbeddingRepository.embedded db model embeddingVersion c.id

/-- The superseded chunks of a knowledge base that have an embedding of a pair. -/
def standIns : ℕ :=
  db.chunks.countP fun c =>
    (c.kbId = kb && EmbeddingRepository.embedded db model embeddingVersion c.id) && c.superseded

/-- The active chunks of a knowledge base that have an embedding of a pair. -/
def covered : ℕ :=
  db.chunks.countP fun c =>
    (c.kbId = kb && !c.superseded) && EmbeddingRepository.embedded db model embeddingVersion c.id

variable {db}

/-- The active chunks are the covered and the missing ones. -/
theorem countActiveForKb_eq :
  ChunkRepository.countActiveForKb db kb =
    covered db kb model embeddingVersion + missing db kb model embeddingVersion
  := by
  symm
  apply Table.countP_and_not_add

/-- A pair has one embedding for a chunk at most. -/
theorem nodup_chunkId_of_pair (h : WellFormed db) :
  ((db.embeddings.filter fun e =>
    e.model = model && e.embeddingVersion = embeddingVersion).map (·.chunkId)).Nodup
  := by
  apply List.Nodup.map_on
  · intro e he e' he' same
    rw [List.mem_filter, Bool.and_eq_true, decide_eq_true_eq, decide_eq_true_eq] at he he'
    obtain ⟨-, hm, hv⟩ := he
    obtain ⟨-, hm', hv'⟩ := he'
    rcases e with ⟨chunk, m, v⟩
    rcases e' with ⟨chunk', m', v'⟩
    congr 1
    · apply hm.trans hm'.symm
    · apply hv.trans hv'.symm
  · apply h.embeddingKeys.filter

theorem mem_chunkId_of_pair {chunk : ChunkId} :
  chunk ∈ (db.embeddings.filter fun e =>
      e.model = model && e.embeddingVersion = embeddingVersion).map (·.chunkId) ↔
    EmbeddingRepository.embedded db model embeddingVersion chunk
  := by
  rw [embedded_iff, List.mem_map]
  constructor
  · rintro ⟨e, he, rfl⟩
    rw [List.mem_filter, Bool.and_eq_true, decide_eq_true_eq, decide_eq_true_eq] at he
    obtain ⟨he, rfl, rfl⟩ := he
    apply he
  · intro he
    refine ⟨{ chunkId := chunk, model := model, embeddingVersion := embeddingVersion }, ?_, rfl⟩
    rw [List.mem_filter]
    use he
    simp

/-- The embeddings that are counted are those of the covered chunks and of the stand-ins. -/
theorem countForKbVersion_eq (h : WellFormed db) :
  EmbeddingRepository.countForKbVersion db kb model embeddingVersion =
    covered db kb model embeddingVersion + standIns db kb model embeddingVersion
  := by
  have counted : EmbeddingRepository.countForKbVersion db kb model embeddingVersion =
      db.chunks.countP fun c =>
        c.kbId = kb && EmbeddingRepository.embedded db model embeddingVersion c.id := by
    unfold EmbeddingRepository.countForKbVersion
    have references := Table.countP_references (p := fun c : Chunk => decide (c.kbId = kb))
      h.chunkIds (nodup_chunkId_of_pair model embeddingVersion h)
    rw [List.countP_filter] at references
    have swap : ∀ e : Embedding,
        (decide (e.model = model) && decide (e.embeddingVersion = embeddingVersion) &&
          db.chunks.any fun c => decide (c.kbId = kb) && decide (c.id = e.chunkId)) =
        ((db.chunks.any fun c => decide (c.kbId = kb) && decide (c.id = e.chunkId)) &&
          (decide (e.model = model) && decide (e.embeddingVersion = embeddingVersion))) := by
      intro e
      apply Bool.and_comm
    simp only [swap]
    rw [references]
    apply List.countP_congr
    intro c _
    rw [Bool.and_eq_true, Bool.and_eq_true, decide_eq_true_eq, decide_eq_true_eq,
      mem_chunkId_of_pair]
  rw [counted, ← Table.countP_and_not_add _ (fun c => !c.superseded)]
  simp only [Bool.not_not]
  unfold covered standIns
  congr 1
  apply List.countP_congr
  intro c _
  rw [Bool.and_right_comm]

/-- The gate of the switch: there are no more missing chunks than stand-ins. -/
theorem isComplete_roundProgress (h : WellFormed db) (job : KbReindexJob) :
  (roundProgress db job model).isComplete ↔
    missing db job.kbId model job.targetEmbeddingVersion ≤
      standIns db job.kbId model job.targetEmbeddingVersion
  := by
  unfold roundProgress reindexProgress ReindexProgress.isComplete
  rw [decide_eq_true_eq, countForKbVersion_eq job.kbId model _ h,
    countActiveForKb_eq job.kbId model job.targetEmbeddingVersion]
  dsimp only
  omega

/-- Nothing is missing when all active chunks are embedded. -/
theorem missing_eq_zero :
  missing db kb model embeddingVersion = 0 ↔
    ∀ c ∈ db.chunks, c.kbId = kb → c.superseded = false →
      EmbeddingRepository.embedded db model embeddingVersion c.id
  := by
  unfold missing
  rw [List.countP_eq_zero]
  apply forall₂_congr
  intro c _
  rw [Bool.and_eq_true, Bool.and_eq_true, decide_eq_true_eq, Bool.not_eq_true', Bool.not_eq_true',
    not_and, and_imp, Bool.not_eq_false]

end Counts

/-! ### The switch -/

/-- A database in which the knowledge base of a job has the target pair of the job, and every
active chunk of the knowledge base has an embedding under that pair. -/
structure Switched (db : Db) (job : KbReindexJob) (model : String) : Prop where
  pair : ∀ kb ∈ db.knowledgeBases, kb.id = job.kbId →
    kb.embeddingModel = model ∧ kb.embeddingVersion = job.targetEmbeddingVersion
  embedded : ∀ c ∈ db.chunks, c.kbId = job.kbId → c.superseded = false →
    EmbeddingRepository.embedded db model job.targetEmbeddingVersion c.id

/-- If the action closes a round with the switch, the switch is safe. -/
def SwitchSafe (cfg : Settings) (w : World) (a : Action) : Prop :=
  ∀ job model db, Commits cfg w a (.closeRound job model) db →
    (roundProgress w.shared.db job model).isComplete → Switched db job model

/-- If the action closes a round, the missing chunks are none, or more than the stand-ins. -/
def NoStandIns (cfg : Settings) (w : World) (a : Action) : Prop :=
  ∀ job model db, Commits cfg w a (.closeRound job model) db →
    missing w.shared.db job.kbId model job.targetEmbeddingVersion = 0 ∨
      standIns w.shared.db job.kbId model job.targetEmbeddingVersion <
        missing w.shared.db job.kbId model job.targetEmbeddingVersion

section

variable {db db' : Db} {job : KbReindexJob} {model : String}

/-- A complete round gives the knowledge base the target pair. -/
theorem effect_switch_pair {now : ℕ} (he : Effect now db (.closeRound job model) db')
    (complete : (roundProgress db job model).isComplete) :
  ∀ kb ∈ db'.knowledgeBases, kb.id = job.kbId →
    kb.embeddingModel = model ∧ kb.embeddingVersion = job.targetEmbeddingVersion
  := by
  cases he with
  | plain plain _ => cases plain
  | upsert writes _ _ _ =>
    obtain writes | ⟨_, _, writes, -⟩ := writes
    all_goals cases writes
  | stay incomplete _ =>
    rw [incomplete] at complete
    cases complete
  | switch _ data =>
    intro kb hkb hid
    have rows : db'.knowledgeBases = _ := (congrArg Db.knowledgeBases data :)
    rw [rows] at hkb
    obtain ⟨old, -, rfl⟩ := Table.mem_update.mp hkb
    split
    · exact ⟨rfl, rfl⟩
    next hp =>
      rw [if_neg hp] at hid
      exact absurd (decide_eq_true hid) hp

/-- Closing a round does not touch the chunks and the embeddings. -/
theorem effect_closeRound_tables {now : ℕ} (he : Effect now db (.closeRound job model) db') :
  db'.chunks = db.chunks ∧ db'.embeddings = db.embeddings
  := by
  cases he with
  | plain plain _ => cases plain
  | upsert writes _ _ _ =>
    obtain writes | ⟨_, _, writes, -⟩ := writes
    all_goals cases writes
  | stay _ data => exact ⟨(congrArg Db.chunks data :), (congrArg Db.embeddings data :)⟩
  | switch _ data => exact ⟨(congrArg Db.chunks data :), (congrArg Db.embeddings data :)⟩

/-- A complete round is a safe switch exactly if nothing was missing. -/
theorem switched_iff {now : ℕ} (he : Effect now db (.closeRound job model) db')
    (complete : (roundProgress db job model).isComplete) :
  Switched db' job model ↔ missing db job.kbId model job.targetEmbeddingVersion = 0
  := by
  obtain ⟨chunks, embeddings⟩ := effect_closeRound_tables he
  rw [missing_eq_zero]
  constructor
  · intro h c hc hkb hactive
    have after := h.embedded c (chunks ▸ hc) hkb hactive
    rw [embedded_iff, embeddings, ← embedded_iff] at after
    apply after
  · intro h
    constructor
    · apply effect_switch_pair he complete
    · intro c hc hkb hactive
      rw [embedded_iff, embeddings, ← embedded_iff]
      apply h c (chunks ▸ hc) hkb hactive

end

/-- An action that starts from well-formed tables is safe exactly if it closes no round with
stand-ins for all the missing chunks. -/
theorem switchSafe_iff_noStandIns {cfg : Settings} {w : World} (hw : WellFormed w.shared.db)
    (a : Action) :
  SwitchSafe cfg w a ↔ NoStandIns cfg w a
  := by
  apply forall₄_congr
  intro job model db commits
  obtain ⟨r, hr⟩ := commits.commit
  constructor
  · intro safe
    by_cases complete : (roundProgress w.shared.db job model).isComplete
    · left
      apply (switched_iff (transact_effect hr) complete).mp
      apply safe complete
    · right
      rw [isComplete_roundProgress model hw] at complete
      apply not_le.mp complete
  · intro condition complete
    apply (switched_iff (transact_effect hr) complete).mpr
    rw [isComplete_roundProgress model hw] at complete
    obtain none | more := condition
    · apply none
    · exact absurd complete (not_le.mpr more)

/-- In a run, every switch leaves all active chunks of its knowledge base with an embedding of
the pair that it writes, exactly if no round closes while some active chunks have none and at
least as many superseded ones have one. -/
theorem switchSafe_iff {cfg : Settings} {h : List (World × Action)} {w : World}
    (run : (system cfg).Run h w) :
  (∀ x ∈ h, SwitchSafe cfg x.1 x.2) ↔ ∀ x ∈ h, NoStandIns cfg x.1 x.2
  := by
  apply forall₂_congr
  intro x hx
  apply switchSafe_iff_noStandIns
  apply wellFormed_of_run run x.1
  apply List.mem_cons_of_mem
  apply List.mem_map_of_mem hx

/-! ### Small runs -/

/-- A document is uploaded and ingested, and then a reindex embeds its chunk and switches. -/
def reindexSample : List Action :=
  ingestSample ++ requests 0 2 (.startReindex 1 none (some false)) ++
    .deliver 1 0 :: works 0 4 ++ .work 0 (.reported "m") :: works 0 2

theorem switchSafe_iff_reindexSample :
  ∃ h w, (system sampleSettings).Run h w ∧
    (w.shared.db.reindexJobs.all (·.status = .completed) ∧ w.shared.db.reindexJobs ≠ []) ∧
    ((∀ x ∈ h, SwitchSafe sampleSettings x.1 x.2) ↔ ∀ x ∈ h, NoStandIns sampleSettings x.1 x.2)
  := by
  obtain ⟨h, w, run, hw⟩ := Machine.exists_run_of_exec (M := system sampleSettings)
    reindexSample
    (fun w => decide (w.shared.db.reindexJobs.all (·.status = .completed) ∧
      w.shared.db.reindexJobs ≠ []))
    sampleWorld_initial (by decide)
  exact ⟨h, w, run, of_decide_eq_true hw, switchSafe_iff run⟩

/-- The job of the small runs, in its embedding phase. -/
def sampleJob : KbReindexJob where
  id := 0
  kbId := 1
  status := .embedding
  targetModel := "m"
  targetEmbeddingVersion := 2
  targetKnowledgeVersion := 1
  rechunk := false
  totalChunks := 1
  totalDocuments := 1

/-- Between the embedding of the only chunk and the end of the round, the document is reingested
and its new chunk is written. -/
def reingestMidRound : List Action :=
  ingestSample ++ requests 0 2 (.startReindex 1 none (some false)) ++
    .deliver 1 0 :: works 0 4 ++ .work 0 (.reported "m") :: works 0 1 ++
      requests 1 3 (.reingest 7) ++ .deliver 1 0 :: works 1 14

/-- The embedding of the superseded chunk makes up for the new chunk, which has none. -/
theorem not_switchSafe_reingestMidRound :
  ¬∀ h w, (system sampleSettings).Run h w → ∀ x ∈ h, SwitchSafe sampleSettings x.1 x.2
  := by
  obtain ⟨h, w, run, hw⟩ := Machine.exists_run_of_exec (M := system sampleSettings)
    reingestMidRound
    (fun w => decide ((Action.work 0 .done).operation w = some (.tx (.closeRound sampleJob "m")) ∧
      (roundProgress w.shared.db sampleJob "m").isComplete = true ∧
      missing w.shared.db 1 "m" 2 ≠ 0))
    sampleWorld_initial (by decide)
  obtain ⟨operation, complete, hmissing⟩ := of_decide_eq_true hw
  have commits : Commits sampleSettings w (.work 0 .done) (.closeRound sampleJob "m")
      (closeRound w.shared.db sampleJob "m") := ⟨operation, ⟨0, rfl⟩, (), rfl⟩
  obtain ⟨w', hstep⟩ : ∃ w', (system sampleSettings).step (.work 0 .done) w = some w' :=
    commits.possible
  intro claim
  have safe := claim _ w' (run.step hstep) _ List.mem_cons_self _ _ _ commits complete
  have hclose : Effect 0 w.shared.db (.closeRound sampleJob "m") _ := effect_closeRound
  apply hmissing
  apply (switched_iff hclose complete).mp safe

end Lumina.Knowledge
