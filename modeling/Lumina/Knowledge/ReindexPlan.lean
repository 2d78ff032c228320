import Lumina.Knowledge.Store

/-!
# The decisions of a reindex

What a reindex of a knowledge base does, what its next status is and when it may switch.  These
functions see numbers and names only, not the database.
-/

namespace Lumina.Knowledge

structure ReindexPlan where
  targetModel : String
  targetEmbeddingVersion : ℕ
  targetKnowledgeVersion : ℕ
  rechunk : Bool
deriving DecidableEq, Repr

/-- The progress of a job: the active chunks of the knowledge base, and how many of them count
as embedded.  More embedded ones than chunks would be a counting error, so none can be built. -/
structure ReindexProgress where
  totalChunks : ℕ
  embeddedChunks : ℕ
  counted : embeddedChunks ≤ totalChunks

/-- All is embedded. -/
def ReindexProgress.isComplete (p : ReindexProgress) : Bool :=
  p.totalChunks ≤ p.embeddedChunks

/-- Whether the chunks were cut with other settings than the current ones. -/
def needsReindex (knowledgeVersion indexedKnowledgeVersion : ℕ) : Bool :=
  knowledgeVersion ≠ indexedKnowledgeVersion

/-- The characters that `str.strip` removes. -/
def isSpace (c : Char) : Bool :=
  [(0x09, 0x0D), (0x1C, 0x20), (0x85, 0x85), (0xA0, 0xA0), (0x1680, 0x1680), (0x2000, 0x200A),
    (0x2028, 0x2029), (0x202F, 0x202F), (0x205F, 0x205F), (0x3000, 0x3000)].any fun range =>
      range.1 ≤ c.toNat && c.toNat ≤ range.2

/-- `str.strip`. -/
def strip (s : String) : String :=
  String.ofList ((s.toList.dropWhile isSpace).reverse.dropWhile isSpace).reverse

/-- The target and the extent of a reindex.  Without a target model the current one stays; whether
to cut the chunks anew is the caller's decision, or else that of `needsReindex`. -/
def planReindex (currentModel : String) (currentEmbeddingVersion knowledgeVersion
    indexedKnowledgeVersion : ℕ) (targetModel : Option String) (rechunk : Option Bool) :
    Except String ReindexPlan :=
  let model := match targetModel with
    | none => currentModel
    | some target => strip target
  if model = "" then .error "target model 不得為空字串"
  else
    let shouldRechunk := rechunk.getD (needsReindex knowledgeVersion indexedKnowledgeVersion)
    if shouldRechunk ∧ model ≠ currentModel then
      .error "重切與換 embedding 模型請分兩次執行：先重建切塊，完成後再換模型"
    else
      .ok
        { targetModel := model
          -- two versions of a vector side by side are needed only for chunks that stay
          targetEmbeddingVersion :=
            if shouldRechunk then currentEmbeddingVersion else currentEmbeddingVersion + 1
          targetKnowledgeVersion :=
            if shouldRechunk then knowledgeVersion else indexedKnowledgeVersion
          rechunk := shouldRechunk }

def nextStatus (status : ReindexStatus) (rechunk : Bool) : ReindexStatus :=
  match status with
  | .completed => .completed
  | .failed => .failed
  | .pending => if rechunk then .rechunking else .embedding
  | .rechunking => .embedding
  | .embedding => .completed

/-- No step leads back to the waiting for the first one. -/
theorem nextStatus_ne_pending (status : ReindexStatus) (rechunk : Bool) :
  nextStatus status rechunk ≠ .pending
  := by
  cases status
  all_goals
    cases rechunk
    all_goals decide

/-- Whether the third step, the switch, may be made. -/
def readyToSwitch (status : ReindexStatus) (progress : ReindexProgress) : Bool :=
  status = .embedding && progress.isComplete

/-- The target of a plan is never the current pair with other chunks beside it: either the chunks
are cut anew and nothing else changes, or the embedding version is a new one. -/
theorem planReindex_target {currentModel : String} {currentEmbeddingVersion knowledgeVersion
    indexedKnowledgeVersion : ℕ} {targetModel : Option String} {rechunk : Option Bool}
    {plan : ReindexPlan}
    (h : planReindex currentModel currentEmbeddingVersion knowledgeVersion
      indexedKnowledgeVersion targetModel rechunk = .ok plan) :
  plan.targetModel ≠ "" ∧
    if plan.rechunk then
      plan.targetModel = currentModel ∧ plan.targetEmbeddingVersion = currentEmbeddingVersion
    else plan.targetEmbeddingVersion = currentEmbeddingVersion + 1
  := by
  unfold planReindex at h
  dsimp only at h
  split_ifs at h with hempty hboth hre
  · cases h
    constructor
    · apply hempty
    · rw [if_pos hre]
      constructor
      · apply not_not.mp fun hne => hboth ⟨hre, hne⟩
      · rfl
  · cases h
    constructor
    · apply hempty
    · rw [if_neg hre]

end Lumina.Knowledge
