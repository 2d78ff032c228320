import Lumina.Gateway.Rerank

/-!
# The retrieval service

A question goes to the knowledge bases; each of them gives a list of candidates by its embeddings
and, in the hybrid modes, one by the full text.  The lists are fused, and in the modes that say so
the candidates are ranked again by a provider.  The full-text search and the ranking are steps that
may fail: then the retrieval does without them, and says so.

The trace of a retrieval, which has its times and is only written to the log, is not modelled.
-/

namespace Lumina.Rag

open Etl (Text)
open Gateway (RerankProvider RerankedDocument)
open Knowledge (AppSettings Config Exn KbId ParamValue PyFloat layersOf readParam retrievalSpecs)

/-! ### Parameters -/

structure RagParams where
  topK : ℤ
  ftsTopK : ℤ
  rrfK : ℤ
  hybridCandidates : ℤ
  retrievalMode : String
  rerankThreshold : PyFloat
  contextChunks : ℤ
  contextTokenBudget : ℤ
  minScoreRatio : PyFloat
  queryHistoryTurns : ℤ

def intOf : ParamValue → Option ℤ
  | .int n => some n
  | _ => none

def floatOf : ParamValue → Option PyFloat
  | .float x => some x
  | _ => none

def choiceOf : ParamValue → Option String
  | .choice s => some s
  | _ => none

/-- `resolve_rag_params`; `none` is an `OverflowError`. -/
def resolveRagParams (kbConfig tenantConfig : Config) (settings : AppSettings) :
    Option RagParams := do
  let sections := layersOf "retrieval" [kbConfig, tenantConfig]
  let read (key : String) := readParam retrievalSpecs key sections settings
  some
    { topK := ← intOf (← read "top_k")
      ftsTopK := ← intOf (← read "fts_top_k")
      rrfK := ← intOf (← read "rrf_k")
      hybridCandidates := ← intOf (← read "hybrid_candidates")
      retrievalMode := ← choiceOf (← read "retrieval_mode")
      rerankThreshold := ← floatOf (← read "rerank_threshold")
      contextChunks := ← intOf (← read "context_chunks")
      contextTokenBudget := ← intOf (← read "context_token_budget")
      minScoreRatio := ← floatOf (← read "min_score_ratio")
      queryHistoryTurns := ← intOf (← read "query_history_turns") }

/-- `mode or params.retrieval_mode`. -/
def effectiveMode (mode : Option String) (params : RagParams) : String :=
  match mode with
  | some mode => if mode = "" then params.retrievalMode else mode
  | none => params.retrievalMode

/-- `effective.startswith("hybrid")`. -/
def isHybrid (effective : String) : Bool :=
  "hybrid".toList.isPrefixOf effective.toList

/-- `effective.endswith("+rerank")`. -/
def isReranked (effective : String) : Bool :=
  "+rerank".toList.isSuffixOf effective.toList

/-! ### The service -/

/-- `_EmbeddedQuery`. -/
structure EmbeddedQuery where
  vector : List PyFloat
  model : String

/-- `_KnowledgeBaseSnapshot`. -/
structure KnowledgeBaseSnapshot where
  id : KbId
  embeddingModel : String
  embeddingVersion : ℤ
  config : Config

/-- The service as one tenant finds it: the settings, what the database holds, and what the gateway
answers.  A list of hits is as `to_retrieved` returns it. -/
structure RetrievalService where
  settings : AppSettings
  aiEmbeddingModel : String
  aiRerankModel : String
  getById : KbId → Except Exn (Option KnowledgeBaseSnapshot)
  paramConfig : Except Exn Config
  embed : Text → (model : String) → Except Exn EmbeddedQuery
  search : (vector : List PyFloat) → KbId → (model : String) → (embeddingVersion topK efSearch : ℤ) →
    Except Exn (List RetrievedChunk)
  searchFts : (query : Text) → KbId → (topK : ℤ) → Except Exn (List RetrievedChunk)
  rerank : RerankProvider

structure RetrievalOutcome where
  chunks : List RetrievedChunk
  degraded : List String := []

/-- The candidates after the fusion, with the question, the mode and the parameters. -/
structure Candidates where
  text : Text
  params : RagParams
  mode : String
  fused : List RetrievedChunk
  degraded : List String

/-- The embeddings of the question by the models. -/
abbrev Cache := List (String × EmbeddedQuery)

/-- What some routes have found, and the steps that have been left out. -/
structure Routes where
  groups : List (List RetrievedChunk) := []
  degraded : List String := []

def efSearch : ℤ := 80

namespace RetrievalService

variable (s : RetrievalService)

/-- `_tenant_config`. -/
def tenantConfig : Config :=
  match s.paramConfig with
  | .ok config => config
  | .error _ => []

/-- The parameters of a knowledge base. -/
def paramsOf (kb : KnowledgeBaseSnapshot) : Except Exn RagParams :=
  (resolveRagParams kb.config s.tenantConfig s.settings).elim (.error (.other "OverflowError")) .ok

/-- `model_for`. -/
def modelFor (kbEmbeddingModel : String) : String :=
  if kbEmbeddingModel = "" then s.aiEmbeddingModel else kbEmbeddingModel

/-- `_embed`. -/
def embedQuery (text : Text) (model : String) (cache : Option Cache) :
    Except Exn (EmbeddedQuery × Option Cache) :=
  match cache.bind (·.lookup model) with
  | some embedded => .ok (embedded, cache)
  | none => (s.embed text model).map fun embedded =>
      (embedded, cache.map fun cache => (model, embedded) :: cache)

/-- `_search`. -/
def searchVectors (kb : KnowledgeBaseSnapshot) (text : Text) (topK : ℤ) (cache : Option Cache) :
    Except Exn (List RetrievedChunk × Option Cache) := do
  let (embedded, cache) ← s.embedQuery text (s.modelFor kb.embeddingModel) cache
  let hits ← s.search embedded.vector kb.id embedded.model kb.embeddingVersion topK efSearch
  .ok (hits, cache)

/-- `_search_fts`, with whether it has failed. -/
def searchText (kb : KnowledgeBaseSnapshot) (text : Text) (topK : ℤ) :
    List RetrievedChunk × Bool :=
  let query := buildFtsQuery text
  if query.isEmpty then ([], false)
  else
    match s.searchFts query kb.id topK with
    | .ok hits => (hits, false)
    | .error _ => ([], true)

/-- The route through the full text, if the mode has it. -/
def textRoute (kb : KnowledgeBaseSnapshot) (text : Text) (params : RagParams)
    (mode : Option String) : List RetrievedChunk × Bool :=
  if isHybrid (effectiveMode mode params) then s.searchText kb text params.ftsTopK else ([], false)

/-- `_retrieve`. -/
def retrieve (kb : KnowledgeBaseSnapshot) (text : Text) (params : RagParams) (topK : ℤ)
    (mode : Option String) (cache : Option Cache) : Except Exn (Routes × Option Cache) := do
  let (hits, cache) ← s.searchVectors kb text topK cache
  let (keyword, failed) := s.textRoute kb text params mode
  let groups := [gateByScore hits params.minScoreRatio]
  let more := if keyword.isEmpty then [] else [gateByScore keyword params.minScoreRatio]
  .ok (⟨groups ++ more, if failed then ["fts"] else []⟩, cache)

/-- `fuse_candidates`, with the parameters. -/
def fuse (params : RagParams) (groups : List (List RetrievedChunk)) :
    Except Exn (List RetrievedChunk) :=
  (fuseCandidates groups params.rrfK params.hybridCandidates).elim
    (.error (.other "ZeroDivisionError")) .ok

/-- `candidates[doc.index]` with the score of `doc`, for the indices that there are. -/
def reorder (candidates : List RetrievedChunk) (documents : List RerankedDocument) :
    List RetrievedChunk :=
  documents.filterMap fun doc =>
    if 0 ≤ doc.index then candidates[doc.index.toNat]?.map (·.scored doc.score) else none

/-- The call of the gateway in `_rerank`. -/
def rerankCall (c : Candidates) : Except Exn (List RerankedDocument) :=
  Gateway.rerank s.rerank c.text (c.fused.map (·.content)) s.aiRerankModel c.params.contextChunks

/-- `_rerank`. -/
def reranked (c : Candidates) : RetrievalOutcome :=
  if !isReranked c.mode || c.fused.isEmpty then ⟨c.fused, c.degraded⟩
  else
    match s.rerankCall c with
    | .error _ => ⟨c.fused, (c.degraded ++ ["rerank"]).eraseDups⟩
    | .ok documents =>
        ⟨gateByAbsoluteScore (reorder c.fused documents) c.params.rerankThreshold, c.degraded⟩

/-- The body of `query`, up to the fusion. -/
def queryCandidates (kbId : KbId) (query : Text) (topK : Option ℤ) (mode : Option String) :
    Except Exn Candidates := do
  let text := normaliseQuery query
  if text.isEmpty then .error (.other "ValueError")
  else do
    let some kb ← s.getById kbId | .error (.notFound "知識庫不存在")
    let params ← s.paramsOf kb
    let limit := topK.getD params.topK
    if ¬(1 ≤ limit ∧ limit ≤ Knowledge.maxTopK) then .error (.other "ValueError")
    else do
      let (routes, _) ← s.retrieve kb text params limit mode none
      let fused ← fuse params routes.groups
      .ok ⟨text, params, effectiveMode mode params, fused, routes.degraded⟩

def query (kbId : KbId) (query : Text) (topK : Option ℤ) (mode : Option String) :
    Except Exn RetrievalOutcome :=
  (s.queryCandidates kbId query topK mode).map s.reranked

/-- The knowledge bases that there are. -/
def available (kbIds : List KbId) : Except Exn (List KnowledgeBaseSnapshot) :=
  (kbIds.mapM s.getById).map List.reduceOption

/-- The loop of `retrieve_for_chat` through the knowledge bases. -/
def retrieveAll (text : Text) (params : RagParams) (mode : Option String) :
    List KnowledgeBaseSnapshot → Routes → Option Cache → Except Exn Routes
  | [], routes, _ => .ok routes
  | kb :: kbs, routes, cache => do
      let (found, cache) ← s.retrieve kb text params params.topK mode cache
      retrieveAll text params mode kbs
        ⟨routes.groups ++ found.groups, (routes.degraded ++ found.degraded).eraseDups⟩ cache

/-- The body of `retrieve_for_chat`, up to the fusion; without a question or a knowledge base there
is nothing to retrieve. -/
def chatCandidates (kbIds : List KbId) (query : Text) (mode : Option String) :
    Except Exn (Option Candidates) := do
  let text := normaliseQuery query
  if text.isEmpty || kbIds.isEmpty then .ok none
  else do
    match ← s.available kbIds with
    | [] => .ok none
    | first :: others => do
        let params ← s.paramsOf first
        let routes ← s.retrieveAll text params mode (first :: others) {} (some [])
        let fused ← fuse params routes.groups
        .ok (some ⟨text, params, effectiveMode mode params, fused, routes.degraded⟩)

/-- The context of an answer, from the candidates. -/
def selected (c : Candidates) : RetrievalOutcome :=
  let outcome := s.reranked c
  ⟨selectContext outcome.chunks c.params.contextChunks c.params.contextTokenBudget,
    outcome.degraded⟩

def retrieveForChat (kbIds : List KbId) (query : Text) (mode : Option String) :
    Except Exn RetrievalOutcome :=
  (s.chatCandidates kbIds query mode).map fun c => c.elim ⟨[], []⟩ s.selected

end RetrievalService

end Lumina.Rag
