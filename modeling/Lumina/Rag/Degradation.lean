import Lumina.Rag.Retrieval
import Mathlib.Data.List.Perm.Subperm

/-!
# How the retrieval degrades

A retrieval whose ranking fails is the retrieval in the mode without the ranking, and one whose
full-text search fails is the one that finds nothing there; both say which step is missing.  And
whatever a provider ranks, the chunks are different ones of those that it was given.
-/

namespace Lumina.Rag

open Etl (Text)
open Fallible (ok_of_bind)
open Gateway (Ranking RerankedDocument)
open Knowledge (Exn KbId)

/-! ### The ranked candidates -/

/-- The chunk without its score. -/
def RetrievedChunk.unscored (chunk : RetrievedChunk) : RetrievedChunk :=
  chunk.scored (.finite 0)

/-- Different chunks, each of them a candidate but for its score. -/
structure Among (chunks fused : List RetrievedChunk) : Prop where
  distinct : (chunks.map (·.chunkId)).Nodup
  part : (chunks.map (·.unscored)).Subperm (fused.map (·.unscored))

namespace Among

variable {chunks fused : List RetrievedChunk}

theorem self (distinct : (fused.map (·.chunkId)).Nodup) :
  Among fused fused
  := by
  constructor
  · apply distinct
  · apply List.Subperm.refl

theorem sublist (h : Among chunks fused) {chunks' : List RetrievedChunk}
    (sub : chunks'.Sublist chunks) :
  Among chunks' fused
  := by
  constructor
  · apply h.distinct.sublist (sub.map _)
  · apply List.Subperm.trans _ h.part
    apply (sub.map _).subperm

end Among

theorem mem_reorder {fused : List RetrievedChunk} {documents : List RerankedDocument}
    {chunk : RetrievedChunk} (h : chunk ∈ RetrievalService.reorder fused documents) :
  ∃ doc ∈ documents, 0 ≤ doc.index ∧
    ∃ candidate, fused[doc.index.toNat]? = some candidate ∧ chunk = candidate.scored doc.score
  := by
  obtain ⟨doc, mem, hdoc⟩ := List.mem_filterMap.mp h
  split at hdoc
  · case isTrue nonneg =>
    obtain ⟨candidate, at_, rfl⟩ := Option.map_eq_some_iff.mp hdoc
    exact ⟨doc, mem, nonneg, candidate, at_, rfl⟩
  · cases hdoc

/-- Different places of the candidates have different ids. -/
theorem index_eq_of_chunkId_eq {fused : List RetrievedChunk}
    (distinct : (fused.map (·.chunkId)).Nodup) {i j : ℕ} {a b : RetrievedChunk}
    (ha : fused[i]? = some a) (hb : fused[j]? = some b) (same : a.chunkId = b.chunkId) :
  i = j
  := by
  have lt : i < (fused.map (·.chunkId)).length := by
    rw [List.length_map]
    apply (List.getElem?_eq_some_iff.mp ha).1
  apply (List.getElem?_inj lt distinct).mp
  rw [List.getElem?_map, List.getElem?_map, ha, hb, Option.map_some, Option.map_some, same]

theorem nodup_reorder {fused : List RetrievedChunk} (distinct : (fused.map (·.chunkId)).Nodup)
    {documents : List RerankedDocument} (different : (documents.map (·.index)).Nodup) :
  ((RetrievalService.reorder fused documents).map (·.chunkId)).Nodup
  := by
  induction documents with
  | nil => apply List.nodup_nil
  | cons doc docs ih =>
    obtain ⟨fresh, different⟩ := List.nodup_cons.mp different
    have rest := ih different
    unfold RetrievalService.reorder at rest ⊢
    rw [List.filterMap_cons]
    split
    · apply rest
    · case h_2 chunk hdoc =>
      apply List.nodup_cons.mpr
      constructor
      · intro mem
        obtain ⟨other, later, same⟩ := List.mem_map.mp mem
        obtain ⟨doc', mem', nonneg', candidate', place', rfl⟩ := mem_reorder later
        split at hdoc
        · case isTrue nonneg =>
          obtain ⟨candidate, place, rfl⟩ := Option.map_eq_some_iff.mp hdoc
          have index : doc'.index.toNat = doc.index.toNat :=
            index_eq_of_chunkId_eq distinct place' place same
          have again : doc'.index = doc.index := by omega
          apply fresh
          apply List.mem_map.mpr ⟨doc', mem', again⟩
        · cases hdoc
      · apply rest

/-- What a provider makes of the candidates, if its answer is different indices into them. -/
theorem Among.reorder {fused : List RetrievedChunk} (distinct : (fused.map (·.chunkId)).Nodup)
    {count : ℕ} {documents : List RerankedDocument} (ranking : Ranking count documents) :
  Among (RetrievalService.reorder fused documents) fused
  := by
  have ids := nodup_reorder distinct ranking.distinct
  constructor
  · apply ids
  · apply List.Nodup.subperm
    · apply List.Nodup.of_map (·.chunkId)
      rw [List.map_map]
      apply ids
    · intro unscored mem
      obtain ⟨chunk, ranked, rfl⟩ := List.mem_map.mp mem
      obtain ⟨doc, -, -, candidate, place, rfl⟩ := mem_reorder ranked
      apply List.mem_map.mpr ⟨candidate, List.mem_of_getElem? place, rfl⟩

namespace RetrievalService

variable {s : RetrievalService}

/-- Whatever the provider answers. -/
theorem among_reranked {c : Candidates} (distinct : (c.fused.map (·.chunkId)).Nodup) :
  Among (s.reranked c).chunks c.fused
  := by
  unfold reranked
  split
  · apply Among.self distinct
  · split
    · apply Among.self distinct
    · case h_2 documents answer =>
      apply (Among.reorder distinct (Gateway.ranking_rerank answer)).sublist
      apply gateByAbsoluteScore_sublist

theorem nodup_fuse {params : RagParams} {groups : List (List RetrievedChunk)}
    {fused : List RetrievedChunk} (h : fuse params groups = .ok fused) :
  (fused.map (·.chunkId)).Nodup
  := by
  unfold fuse at h
  cases hfuse : fuseCandidates groups params.rrfK params.hybridCandidates with
  | none =>
    rw [hfuse] at h
    cases h
  | some candidates =>
    rw [hfuse] at h
    cases h
    apply nodup_fuseCandidates hfuse

/-! ### Without the ranking -/

theorem retrieve_congr {mode mode' : Option String} {params : RagParams}
    (same : isHybrid (effectiveMode mode params) = isHybrid (effectiveMode mode' params))
    (kb : KnowledgeBaseSnapshot) (text : Text) (topK : ℤ) (cache : Option Cache) :
  s.retrieve kb text params topK mode cache = s.retrieve kb text params topK mode' cache
  := by
  unfold retrieve textRoute
  rw [same]

theorem retrieveAll_congr {mode mode' : Option String} {params : RagParams}
    (same : isHybrid (effectiveMode mode params) = isHybrid (effectiveMode mode' params))
    (text : Text) (kbs : List KnowledgeBaseSnapshot) (routes : Routes) (cache : Option Cache) :
  s.retrieveAll text params mode kbs routes cache = s.retrieveAll text params mode' kbs routes cache
  := by
  induction kbs generalizing routes cache with
  | nil => rfl
  | cons kb kbs ih =>
    unfold retrieveAll
    rw [retrieve_congr same]
    congr 1
    funext found
    apply ih

/-- The candidates do not depend on whether they will be ranked. -/
theorem queryCandidates_congr {kbId : KbId} {query : Text} {topK : Option ℤ}
    {mode mode' : Option String} {c : Candidates}
    (h : s.queryCandidates kbId query topK mode = .ok c)
    (same : isHybrid c.mode = isHybrid (effectiveMode mode' c.params)) :
  s.queryCandidates kbId query topK mode' =
    .ok { c with mode := effectiveMode mode' c.params }
  := by
  unfold queryCandidates at h ⊢
  dsimp only at h ⊢
  split at h
  · cases h
  · case isFalse text =>
    rw [if_neg text]
    obtain ⟨kb?, hkb, h⟩ := ok_of_bind h
    rw [hkb]
    split at h
    · case h_1 kb =>
      obtain ⟨params, hparams, h⟩ := ok_of_bind h
      split at h
      · cases h
      · case isFalse limit =>
        obtain ⟨⟨routes, cache⟩, hroutes, h⟩ := ok_of_bind h
        obtain ⟨fused, hfused, h⟩ := ok_of_bind h
        cases h
        rw [retrieve_congr same] at hroutes
        simp only [bind, Except.bind, hparams, if_neg limit, hroutes, hfused]
    · cases h

theorem chatCandidates_congr {kbIds : List KbId} {query : Text} {mode mode' : Option String}
    {c : Candidates} (h : s.chatCandidates kbIds query mode = .ok (some c))
    (same : isHybrid c.mode = isHybrid (effectiveMode mode' c.params)) :
  s.chatCandidates kbIds query mode' =
    .ok (some { c with mode := effectiveMode mode' c.params })
  := by
  unfold chatCandidates at h ⊢
  dsimp only at h ⊢
  split at h
  · cases h
  · case isFalse text =>
    rw [if_neg text]
    obtain ⟨available, havailable, h⟩ := ok_of_bind h
    rw [havailable]
    split at h
    · cases h
    · case h_2 first others =>
      obtain ⟨params, hparams, h⟩ := ok_of_bind h
      obtain ⟨routes, hroutes, h⟩ := ok_of_bind h
      obtain ⟨fused, hfused, h⟩ := ok_of_bind h
      cases h
      rw [retrieveAll_congr same] at hroutes
      simp only [bind, Except.bind, hparams, hroutes, hfused]

/-! ### Without the full text -/

/-- The service whose full-text search finds nothing where it would fail. -/
def withEmptyFts (s : RetrievalService) : RetrievalService :=
  { s with
    searchFts := fun query kbId topK =>
      match s.searchFts query kbId topK with
      | .ok hits => .ok hits
      | .error _ => .ok [] }

/-- The full-text route of a knowledge base fails. -/
def ftsFails (s : RetrievalService) (kb : KnowledgeBaseSnapshot) (text : Text) (params : RagParams)
    (mode : Option String) : Bool :=
  (s.textRoute kb text params mode).2

/-- The marker of the full-text search. -/
def ftsMark (failed : Bool) : List String :=
  if failed then ["fts"] else []

theorem textRoute_withEmptyFts (kb : KnowledgeBaseSnapshot) (text : Text) (params : RagParams)
    (mode : Option String) :
  s.withEmptyFts.textRoute kb text params mode = ((s.textRoute kb text params mode).1, false)
  := by
  unfold textRoute searchText withEmptyFts
  dsimp only
  split
  · split
    · rfl
    · cases s.searchFts (buildFtsQuery text) kb.id params.ftsTopK
      all_goals rfl
  · rfl

theorem retrieve_withEmptyFts (kb : KnowledgeBaseSnapshot) (text : Text) (params : RagParams)
    (topK : ℤ) (mode : Option String) (cache : Option Cache) :
  s.withEmptyFts.retrieve kb text params topK mode cache =
    (s.retrieve kb text params topK mode cache).map fun found =>
      ({ found.1 with degraded := [] }, found.2)
  := by
  have vectors : s.withEmptyFts.searchVectors kb text topK cache =
      s.searchVectors kb text topK cache := rfl
  unfold retrieve
  rw [vectors, textRoute_withEmptyFts]
  cases s.searchVectors kb text topK cache
  all_goals rfl

theorem degraded_retrieve {kb : KnowledgeBaseSnapshot} {text : Text} {params : RagParams}
    {topK : ℤ} {mode : Option String} {cache : Option Cache} {found : Routes × Option Cache}
    (h : s.retrieve kb text params topK mode cache = .ok found) :
  found.1.degraded = ftsMark (s.ftsFails kb text params mode)
  := by
  obtain ⟨hits, -, h⟩ := ok_of_bind h
  cases h
  rfl

theorem ftsMark_append (a b : Bool) :
  (ftsMark a ++ ftsMark b).eraseDups = ftsMark (a || b)
  := by
  cases a
  all_goals cases b
  all_goals decide

theorem retrieveAll_withEmptyFts (text : Text) (params : RagParams) (mode : Option String)
    (kbs : List KnowledgeBaseSnapshot) (routes : Routes) (cache : Option Cache) :
  s.withEmptyFts.retrieveAll text params mode kbs { routes with degraded := [] } cache =
    (s.retrieveAll text params mode kbs routes cache).map fun routes =>
      { routes with degraded := [] }
  := by
  induction kbs generalizing routes cache with
  | nil => rfl
  | cons kb kbs ih =>
    unfold retrieveAll
    rw [retrieve_withEmptyFts]
    cases s.retrieve kb text params params.topK mode cache with
    | error e => rfl
    | ok found =>
      apply ih ⟨routes.groups ++ found.1.groups, (routes.degraded ++ found.1.degraded).eraseDups⟩

theorem degraded_retrieveAll {text : Text} {params : RagParams} {mode : Option String}
    {kbs : List KnowledgeBaseSnapshot} {routes routes' : Routes} {cache : Option Cache}
    {failed : Bool} (before : routes.degraded = ftsMark failed)
    (h : s.retrieveAll text params mode kbs routes cache = .ok routes') :
  routes'.degraded = ftsMark (failed || kbs.any (s.ftsFails · text params mode))
  := by
  induction kbs generalizing routes cache failed with
  | nil =>
    cases h
    rw [before, List.any_nil, Bool.or_false]
  | cons kb kbs ih =>
    obtain ⟨found, hfound, h⟩ := ok_of_bind h
    rw [List.any_cons, ← Bool.or_assoc]
    apply ih _ h
    rw [before, degraded_retrieve hfound, ftsMark_append]

/-- The candidates are the same, but for the marker. -/
theorem queryCandidates_withEmptyFts (kbId : KbId) (query : Text) (topK : Option ℤ)
    (mode : Option String) :
  s.withEmptyFts.queryCandidates kbId query topK mode =
    (s.queryCandidates kbId query topK mode).map fun c => { c with degraded := [] }
  := by
  unfold queryCandidates
  dsimp only
  split
  · rfl
  · have kbs : s.withEmptyFts.getById kbId = s.getById kbId := rfl
    have parameters : s.withEmptyFts.paramsOf = s.paramsOf := rfl
    rw [kbs, parameters]
    cases s.getById kbId with
    | error e => rfl
    | ok kb? =>
      cases kb? with
      | none => rfl
      | some kb =>
        simp only [bind, Except.bind, retrieve_withEmptyFts]
        cases s.paramsOf kb with
        | error e => rfl
        | ok params =>
          dsimp only
          split
          · rfl
          · cases s.retrieve kb (normaliseQuery query) params (topK.getD params.topK) mode none with
            | error e => rfl
            | ok found =>
              dsimp only [Except.map]
              cases fuse params found.1.groups
              all_goals rfl

theorem chatCandidates_withEmptyFts (kbIds : List KbId) (query : Text) (mode : Option String) :
  s.withEmptyFts.chatCandidates kbIds query mode =
    (s.chatCandidates kbIds query mode).map fun c => c.map fun c => { c with degraded := [] }
  := by
  unfold chatCandidates
  dsimp only
  split
  · rfl
  · have kbs : s.withEmptyFts.available kbIds = s.available kbIds := rfl
    have parameters : s.withEmptyFts.paramsOf = s.paramsOf := rfl
    rw [kbs, parameters]
    cases s.available kbIds with
    | error e => rfl
    | ok available =>
      cases available with
      | nil => rfl
      | cons first others =>
        simp only [bind, Except.bind]
        cases s.paramsOf first with
        | error e => rfl
        | ok params =>
          dsimp only
          rw [retrieveAll_withEmptyFts _ params mode (first :: others) {}]
          cases s.retrieveAll (normaliseQuery query) params mode (first :: others) {} (some []) with
          | error e => rfl
          | ok routes =>
            dsimp only [Except.map]
            cases fuse params routes.groups
            all_goals rfl

/-- What the candidates of a query are. -/
theorem queryCandidates_cases {kbId : KbId} {query : Text} {topK : Option ℤ}
    {mode : Option String} {c : Candidates}
    (h : s.queryCandidates kbId query topK mode = .ok c) :
  ∃ kb, s.getById kbId = .ok (some kb) ∧ s.paramsOf kb = .ok c.params ∧
    c.degraded = ftsMark (s.ftsFails kb (normaliseQuery query) c.params mode) ∧
    (c.fused.map (·.chunkId)).Nodup
  := by
  unfold queryCandidates at h
  dsimp only at h
  split at h
  · cases h
  · obtain ⟨kb?, hkb, h⟩ := ok_of_bind h
    split at h
    · case h_1 kb =>
      obtain ⟨params, hparams, h⟩ := ok_of_bind h
      split at h
      · cases h
      · obtain ⟨⟨routes, cache⟩, hroutes, h⟩ := ok_of_bind h
        obtain ⟨fused, hfused, h⟩ := ok_of_bind h
        cases h
        exact ⟨kb, hkb, hparams, degraded_retrieve hroutes, nodup_fuse hfused⟩
    · cases h

theorem chatCandidates_cases {kbIds : List KbId} {query : Text} {mode : Option String}
    {c : Candidates} (h : s.chatCandidates kbIds query mode = .ok (some c)) :
  ∃ first others, s.available kbIds = .ok (first :: others) ∧ s.paramsOf first = .ok c.params ∧
    c.degraded =
      ftsMark ((first :: others).any (s.ftsFails · (normaliseQuery query) c.params mode)) ∧
    (c.fused.map (·.chunkId)).Nodup
  := by
  unfold chatCandidates at h
  dsimp only at h
  split at h
  · cases h
  · obtain ⟨available, havailable, h⟩ := ok_of_bind h
    split at h
    · cases h
    · case h_2 first others =>
      obtain ⟨params, hparams, h⟩ := ok_of_bind h
      obtain ⟨routes, hroutes, h⟩ := ok_of_bind h
      obtain ⟨fused, hfused, h⟩ := ok_of_bind h
      cases h
      have start : ({} : Routes).degraded = ftsMark false := rfl
      have degraded := degraded_retrieveAll start hroutes
      rw [Bool.false_or] at degraded
      exact ⟨first, others, havailable, hparams, degraded, nodup_fuse hfused⟩

/-- Nothing is retrieved from knowledge bases that there are only if there is no question. -/
theorem normaliseQuery_of_chatCandidates_eq_none {kbIds : List KbId} {query : Text}
    {mode : Option String} (h : s.chatCandidates kbIds query mode = .ok none)
    {first : KnowledgeBaseSnapshot} {others : List KnowledgeBaseSnapshot}
    (available : s.available kbIds = .ok (first :: others)) :
  normaliseQuery query = []
  := by
  unfold chatCandidates at h
  dsimp only at h
  split at h
  · case isTrue empty =>
    obtain empty | empty := Bool.or_eq_true_iff.mp empty
    · apply List.isEmpty_iff.mp empty
    · cases List.isEmpty_iff.mp empty
      cases available
  · obtain ⟨kbs, hkbs, h⟩ := ok_of_bind h
    cases available.symm.trans hkbs
    obtain ⟨params, -, h⟩ := ok_of_bind h
    obtain ⟨routes, -, h⟩ := ok_of_bind h
    obtain ⟨fused, -, h⟩ := ok_of_bind h
    cases h

theorem ftsFails_nil (kb : KnowledgeBaseSnapshot) (params : RagParams) (mode : Option String) :
  s.ftsFails kb [] params mode = false
  := by
  unfold ftsFails textRoute
  split
  all_goals rfl

/-- The ranking does not depend on the full-text search. -/
theorem reranked_withEmptyFts {c : Candidates} (h : c.degraded = ["fts"]) :
  s.reranked c =
    ⟨(s.withEmptyFts.reranked { c with degraded := [] }).chunks,
      "fts" :: (s.withEmptyFts.reranked { c with degraded := [] }).degraded⟩
  := by
  have call : s.withEmptyFts.rerankCall { c with degraded := [] } = s.rerankCall c := rfl
  unfold reranked
  rw [call, h]
  dsimp only
  split
  · rfl
  · cases s.rerankCall c
    all_goals rfl

/-! ### The equivalences -/

/-- The call of the provider, which is made unless there is nothing to rank, fails. -/
def RerankFails (s : RetrievalService) (c : Candidates) : Prop :=
  c.fused ≠ [] ∧ ∃ e, s.rerankCall c = .error e

/-- The modes without the ranking. -/
def plainModes : List String :=
  ["vector", "hybrid"]

/-- If the ranking fails, the outcome is the one in the mode without it, with the marker.  The
threshold of the ranking is not applied: the chunks are all the candidates, or what the context has
room for of all of them. -/
def RerankFailureIsPlain (s : RetrievalService) : Prop :=
  ∀ (query : Text) (mode : Option String), ∀ plain ∈ plainModes,
    (∀ kbId topK c, s.queryCandidates kbId query topK mode = .ok c → c.mode = plain ++ "+rerank" →
      s.RerankFails c → ∃ o, s.query kbId query topK (some plain) = .ok o ∧ o.chunks = c.fused ∧
        s.query kbId query topK mode = .ok { o with degraded := o.degraded ++ ["rerank"] }) ∧
    (∀ kbIds c, s.chatCandidates kbIds query mode = .ok (some c) → c.mode = plain ++ "+rerank" →
      s.RerankFails c → ∃ o, s.retrieveForChat kbIds query (some plain) = .ok o ∧
        o.chunks = selectContext c.fused c.params.contextChunks c.params.contextTokenBudget ∧
        s.retrieveForChat kbIds query mode = .ok { o with degraded := o.degraded ++ ["rerank"] })

/-- If the full-text search fails, in a chat for any of the knowledge bases, the outcome is the one
where it finds nothing, with the marker. -/
def FtsFailureIsEmptyRoute (s : RetrievalService) : Prop :=
  ∀ (query : Text) (mode : Option String) (params : RagParams),
    (∀ kbId topK kb, s.getById kbId = .ok (some kb) → s.paramsOf kb = .ok params →
      s.ftsFails kb (normaliseQuery query) params mode = true →
      s.query kbId query topK mode =
        (s.withEmptyFts.query kbId query topK mode).map fun o =>
          { o with degraded := "fts" :: o.degraded }) ∧
    (∀ kbIds first others, s.available kbIds = .ok (first :: others) → s.paramsOf first = .ok params →
      (∃ kb ∈ first :: others, s.ftsFails kb (normaliseQuery query) params mode = true) →
      s.retrieveForChat kbIds query mode =
        (s.withEmptyFts.retrieveForChat kbIds query mode).map fun o =>
          { o with degraded := "fts" :: o.degraded })

/-- The chunks of an outcome are different ones of the candidates, in the order of the ranking. -/
def OutcomeAmongCandidates (s : RetrievalService) : Prop :=
  ∀ (query : Text) (mode : Option String),
    (∀ kbId topK c o, s.queryCandidates kbId query topK mode = .ok c →
      s.query kbId query topK mode = .ok o → Among o.chunks c.fused) ∧
    (∀ kbIds c o, s.chatCandidates kbIds query mode = .ok (some c) →
      s.retrieveForChat kbIds query mode = .ok o → Among o.chunks c.fused)

theorem effectiveMode_plain {plain : String} (h : plain ∈ plainModes) (params : RagParams) :
  effectiveMode (some plain) params = plain
  := by
  unfold effectiveMode
  apply if_neg
  rintro rfl
  revert h
  decide

/-- The ranking is the only difference between two modes. -/
theorem modes_plain {plain : String} (h : plain ∈ plainModes) :
  isHybrid (plain ++ "+rerank") = isHybrid plain ∧ isReranked plain = false ∧
    isReranked (plain ++ "+rerank") = true
  := by
  obtain rfl | rfl : plain = "vector" ∨ plain = "hybrid" := by
    simpa only [plainModes, List.mem_cons, List.not_mem_nil, or_false] using h
  all_goals decide

theorem ftsMark_append_rerank (failed : Bool) :
  (ftsMark failed ++ ["rerank"]).eraseDups = ftsMark failed ++ ["rerank"]
  := by
  cases failed
  all_goals decide

/-- What `_rerank` makes of the candidates in the two modes. -/
theorem reranked_of_fails {c : Candidates} {plain : String} (h : plain ∈ plainModes)
    (mode : c.mode = plain ++ "+rerank") (fails : s.RerankFails c) {failed : Bool}
    (degraded : c.degraded = ftsMark failed) :
  s.reranked { c with mode := plain } = ⟨c.fused, c.degraded⟩ ∧
    s.reranked c = ⟨c.fused, c.degraded ++ ["rerank"]⟩
  := by
  obtain ⟨-, notReranked, reranked_⟩ := modes_plain h
  obtain ⟨some_, e, call⟩ := fails
  unfold reranked
  rw [mode, notReranked, reranked_, call, degraded, ftsMark_append_rerank]
  have notEmpty : c.fused.isEmpty = false := by
    rw [List.isEmpty_eq_false_iff]
    apply some_
  constructor
  · rfl
  · rw [notEmpty]
    rfl

theorem rerankFailureIsPlain (s : RetrievalService) :
  s.RerankFailureIsPlain
  := by
  intro query mode plain hplain
  constructor
  · intro kbId topK c h hmode fails
    have effective := effectiveMode_plain hplain c.params
    have sameRoutes : isHybrid c.mode = isHybrid (effectiveMode (some plain) c.params) := by
      rw [hmode, effective, (modes_plain hplain).1]
    obtain ⟨kb, -, -, degraded, -⟩ := queryCandidates_cases h
    obtain ⟨without, failing⟩ := reranked_of_fails hplain hmode fails degraded
    have candidates := queryCandidates_congr h sameRoutes
    rw [effective] at candidates
    use ⟨c.fused, c.degraded⟩
    unfold RetrievalService.query
    rw [h, candidates]
    exact ⟨congrArg Except.ok without, rfl, congrArg Except.ok failing⟩
  · intro kbIds c h hmode fails
    have effective := effectiveMode_plain hplain c.params
    have sameRoutes : isHybrid c.mode = isHybrid (effectiveMode (some plain) c.params) := by
      rw [hmode, effective, (modes_plain hplain).1]
    obtain ⟨first, others, -, -, degraded, -⟩ := chatCandidates_cases h
    obtain ⟨without, failing⟩ := reranked_of_fails hplain hmode fails degraded
    have candidates := chatCandidates_congr h sameRoutes
    rw [effective] at candidates
    use ⟨selectContext c.fused c.params.contextChunks c.params.contextTokenBudget, c.degraded⟩
    unfold retrieveForChat
    rw [h, candidates]
    simp only [Except.map, Option.elim, selected, without, failing, and_self]

theorem ftsFailureIsEmptyRoute (s : RetrievalService) :
  s.FtsFailureIsEmptyRoute
  := by
  intro query mode params
  constructor
  · intro kbId topK kb hkb hparams fails
    unfold RetrievalService.query
    rw [queryCandidates_withEmptyFts]
    cases h : s.queryCandidates kbId query topK mode with
    | error e => rfl
    | ok c =>
      obtain ⟨kb', hkb', hparams', degraded, -⟩ := queryCandidates_cases h
      cases hkb.symm.trans hkb'
      cases hparams.symm.trans hparams'
      rw [fails] at degraded
      apply congrArg Except.ok (reranked_withEmptyFts degraded)
  · intro kbIds first others havailable hparams fails
    unfold retrieveForChat
    rw [chatCandidates_withEmptyFts]
    cases h : s.chatCandidates kbIds query mode with
    | error e => rfl
    | ok c? =>
      cases c? with
      | none =>
        obtain ⟨kb, -, fails⟩ := fails
        rw [normaliseQuery_of_chatCandidates_eq_none h havailable, ftsFails_nil] at fails
        cases fails
      | some c =>
        obtain ⟨first', others', havailable', hparams', degraded, -⟩ := chatCandidates_cases h
        cases havailable.symm.trans havailable'
        cases hparams.symm.trans hparams'
        rw [List.any_eq_true.mpr fails] at degraded
        simp only [Except.map, Option.elim, Option.map_some, selected,
          reranked_withEmptyFts degraded]

theorem outcomeAmongCandidates (s : RetrievalService) :
  s.OutcomeAmongCandidates
  := by
  intro query mode
  constructor
  · intro kbId topK c o h ho
    obtain ⟨kb, -, -, -, distinct⟩ := queryCandidates_cases h
    unfold RetrievalService.query at ho
    rw [h] at ho
    cases ho
    apply among_reranked distinct
  · intro kbIds c o h ho
    obtain ⟨first, others, -, -, -, distinct⟩ := chatCandidates_cases h
    unfold retrieveForChat at ho
    rw [h] at ho
    cases ho
    apply (among_reranked distinct).sublist
    apply selectContext_sublist

end RetrievalService

end Lumina.Rag
