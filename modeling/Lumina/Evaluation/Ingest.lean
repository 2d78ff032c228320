import Lumina.Etl.Chunk
import Lumina.Knowledge.Alone
import Lumina.Library.Dict
import Lumina.Library.Fallible
import Lumina.Library.Transition
import Mathlib.Data.Set.Basic

/-!
# The corpus of an evaluation

The passages of a corpus become the chunks of one document of the knowledge base that the evaluation
has for itself, and `EmbeddingService` gives them embeddings.  A document is found again by the hash
of its corpus; whether its chunks are all there is told by the number of all chunks of the knowledge
base.  A call may be cut off anywhere, and what it has committed by then stays.
-/

namespace Lumina.Evaluation

open Fallible (ok_of_bind ok_of_mapError)
open Interleaving Knowledge

/-! ### Corpora -/

structure Passage where
  passageId : String
  title : String
  text : String
deriving DecidableEq

structure Corpus where
  name : String
  passages : List Passage
  sha256 : String
deriving DecidableEq

/-- The column `meta` of a chunk. -/
structure ChunkMeta where
  passageId : String
  title : String
deriving DecidableEq

def Passage.chunkMeta (p : Passage) : ChunkMeta where
  passageId := p.passageId
  title := p.title

/-- What the services share, and the `meta` of the chunks. -/
structure Workspace where
  shared : Shared
  metas : List (ChunkId × ChunkMeta) := []

namespace Workspace

def db (w : Workspace) : Db :=
  w.shared.db

/-- The passage that a chunk holds. -/
def passageOf (w : Workspace) (c : Chunk) : Option Passage :=
  (w.metas.lookup c.id).map fun m => ⟨m.passageId, m.title, c.row.content⟩

end Workspace

/-- An exception of `ingest_corpus`: the `EvaluationError` with its numbers, or that of a service. -/
inductive IngestError where
  | incomplete (count passages : ℕ) (document : DocumentId)
  | exn (e : Exn)
deriving DecidableEq

/-! ### `ingest_corpus` -/

/-- `_EVAL_MIME`. -/
def evalMime : String := "application/x-ndjson"

/-- The rows of the passages, in their order. -/
def corpusRows (corpus : Corpus) : List ChunkRow :=
  corpus.passages.mapIdx fun index passage =>
    { seq := index
      content := passage.text
      tokenCount := Etl.estimateTokens passage.text.toList
      page := none
      headingPath := [] }

/-- `_ensure_document`, one transaction; the identifier of a new document is drawn at random. -/
def ensureDocument (kb : KbId) (corpus : Corpus) (newId : DocumentId) (w : Workspace) :
    Except IngestError (DocumentId × Workspace) :=
  match DocumentRepository.findByContentHash w.db kb corpus.sha256 with
  | some existing =>
      let count := (ChunkRepository.forRetrieval w.db kb).length
      if count ≠ corpus.passages.length then
        .error (.incomplete count corpus.passages.length existing.id)
      else .ok (existing.id, w)
  | none => do
      let created ← (createDocument w.shared.now w.db newId kb evalMime corpus.sha256).mapError .exn
      let (_, written) ←
        (ChunkRepository.replaceForVersion newId kb 1 (corpusRows corpus) created).mapError .exn
      let (_, db) := DocumentRepository.setStatus w.shared.now
        { document := newId, status := .chunked } written
      return (newId,
        { shared := { w.shared with db := db }
          metas := (List.range' w.db.nextChunk corpus.passages.length).zip
            (corpus.passages.map Passage.chunkMeta) ++ w.metas })

/-- `passage_map`. -/
def passageMap (kb : KbId) (w : Workspace) : List (ChunkId × String) :=
  (ChunkRepository.forRetrieval w.db kb).filterMap fun c =>
    (w.metas.lookup c.id).map fun m => (c.id, m.passageId)

/-- A call, with all that happens to it: what its first and its last transaction raise, and how the
operations of the embedding turn out, as far as they are performed. -/
structure Call where
  corpus : Corpus
  newId : DocumentId
  batches : ℕ
  entry : Option Exn := none
  answers : List Answer
  exit : Option Exn := none

/-- The outcome of a call; there is none if it is cut off. -/
abbrev Outcome := Option (Except IngestError (List (ChunkId × String)))

section

variable (cfg : Settings)

def ingestCorpus (kb : KbId) (call : Call) (w : Workspace) : Option (Outcome × Workspace) :=
  match call.entry with
  | some e => if e.isInfrastructure then some (some (.error (.exn e)), w) else none
  | none =>
    match ensureDocument kb call.corpus call.newId w with
    | .error e => some (some (.error e), w)
    | .ok (document, w) =>
      (carryOut cfg call.answers (EmbeddingService.embedDocument call.batches document)
          w.shared).map fun (result, s) =>
        let w := { w with shared := s }
        match result, call.exit with
        | none, _ => (none, w)
        | some (.error e), _ => (some (.error (.exn e)), w)
        | some (.ok _), some e => (some (.error (.exn e)), w)
        | some (.ok _), none => (some (.ok (passageMap kb w)), w)

/-- The knowledge base of an evaluation, call after call. -/
def evaluation (kb : KbId) : Transition.Machine Workspace Call where
  init w := WellFormed w.db ∧ (∃ row, KnowledgeBaseRepository.getById w.db kb = some row) ∧
    (∀ d ∈ w.db.documents, d.kbId ≠ kb) ∧ ∀ c ∈ w.db.chunks, c.kbId ≠ kb
  step call w := (ingestCorpus cfg kb call w).map Prod.snd

end

/-! ### What the knowledge base holds -/

/-- An embedding under the version of the knowledge base. -/
def isEmbedded (db : Db) (kb : KbId) (c : Chunk) : Bool :=
  (KnowledgeBaseRepository.getById db kb).any fun row =>
    db.embeddings.any fun e => e.chunkId = c.id && e.embeddingVersion = row.embeddingVersion

/-- The active chunks that are embedded are the passages of the corpus, each once. -/
def Holds (kb : KbId) (corpus : Corpus) (w : Workspace) : Prop :=
  ((ChunkRepository.forRetrieval w.db kb).filter (isEmbedded w.db kb)).map w.passageOf =
    corpus.passages.map some

instance (kb : KbId) (corpus : Corpus) (w : Workspace) : Decidable (Holds kb corpus w) :=
  inferInstanceAs (Decidable (_ = _))

/-- Nothing is there for the knowledge base. -/
structure Empty (kb : KbId) (w : Workspace) : Prop where
  wellFormed : WellFormed w.db
  base : ∃ row, KnowledgeBaseRepository.getById w.db kb = some row
  documents : ∀ d ∈ w.db.documents, d.kbId ≠ kb
  chunks : ∀ c ∈ w.db.chunks, c.kbId ≠ kb

/-- The only document of the knowledge base is that of the corpus, and its chunks are the passages.
-/
structure Filled (kb : KbId) (corpus : Corpus) (document : DocumentId) (w : Workspace) : Prop where
  wellFormed : WellFormed w.db
  base : ∃ row, KnowledgeBaseRepository.getById w.db kb = some row
  only : ∀ d ∈ w.db.documents, d.kbId = kb → d.id = document
  found : ∃ d, DocumentRepository.getById w.db document = some d ∧ d.kbId = kb ∧
    d.contentHash = corpus.sha256 ∧ d.docVersion = 1
  status : ∀ d ∈ w.db.documents, d.id = document → d.status ∈ embeddableStatuses
  chunks : ∃ first, w.db.chunks.filter (·.kbId = kb) =
      ChunkRepository.newChunks document kb 1 first (corpusRows corpus) ∧
    (List.range' first corpus.passages.length).map (fun id => w.metas.lookup id) =
      corpus.passages.map fun p => some p.chunkMeta

theorem length_corpusRows (corpus : Corpus) :
  (corpusRows corpus).length = corpus.passages.length
  := List.length_mapIdx

section

variable {cfg : Settings} {kb : KbId} {corpus corpus' : Corpus} {document newId : DocumentId}
  {w w' : Workspace}

/-- The chunks of a version are in the order of their numbers. -/
theorem pairwise_newChunks (first : ChunkId) :
  (ChunkRepository.newChunks document kb 1 first (corpusRows corpus)).Pairwise
    fun a b => a.row.seq ≤ b.row.seq
  := by
  have rows : (corpusRows corpus).Pairwise fun a b => a.seq ≤ b.seq := by
    rw [List.pairwise_iff_getElem]
    intro i j hi hj hij
    simp only [corpusRows, List.getElem_mapIdx]
    exact hij.le
  have map : (ChunkRepository.newChunks document kb 1 first (corpusRows corpus)).map (·.row) =
      corpusRows corpus := newChunks_map_row
  rw [← map, List.pairwise_map] at rows
  exact rows

namespace Filled

theorem forRetrieval_eq (h : Filled kb corpus document w) :
  ∃ first, ChunkRepository.forRetrieval w.db kb =
      ChunkRepository.newChunks document kb 1 first (corpusRows corpus) ∧
    (List.range' first corpus.passages.length).map (fun id => w.metas.lookup id) =
      corpus.passages.map fun p => some p.chunkMeta
  := by
  obtain ⟨first, chunks, metas⟩ := h.chunks
  refine ⟨first, ?_, metas⟩
  have active : w.db.chunks.filter (fun c => decide (c.kbId = kb) && !c.superseded) =
      ChunkRepository.newChunks document kb 1 first (corpusRows corpus) := by
    have order : (fun c : Chunk => decide (c.kbId = kb) && !c.superseded) =
        fun c => !c.superseded && decide (c.kbId = kb) := by
      funext c
      exact Bool.and_comm _ _
    rw [order, ← List.filter_filter, chunks]
    apply List.filter_eq_self.mpr
    intro c hc
    rw [(mem_newChunks hc).2.2.2]
    rfl
  unfold ChunkRepository.forRetrieval
  rw [active]
  exact (pairwise_newChunks first).insertionSort_eq

/-- The document of the corpus is found again. -/
theorem ensureDocument_eq (h : Filled kb corpus document w) (hash : corpus'.sha256 = corpus.sha256)
    (same : corpus'.passages = corpus.passages) :
  ensureDocument kb corpus' newId w = .ok (document, w)
  := by
  obtain ⟨d, found, hkb, hhash, -⟩ := h.found
  obtain ⟨hmem, visible, -⟩ := getById_mem found
  have stored : ∃ existing,
      DocumentRepository.findByContentHash w.db kb corpus'.sha256 = some existing := by
    apply Option.isSome_iff_exists.mp
    apply List.find?_isSome.mpr
    refine ⟨d, List.mem_filter.mpr ⟨hmem, visible⟩, ?_⟩
    simp [hkb, hhash, hash]
  obtain ⟨existing, stored⟩ := stored
  have kbId := List.find?_some stored
  rw [Bool.and_eq_true, decide_eq_true_eq] at kbId
  have id : existing.id = document :=
    h.only existing (List.mem_of_mem_filter (List.mem_of_find?_eq_some stored)) kbId.1
  obtain ⟨first, chunks, -⟩ := h.forRetrieval_eq
  have count : (ChunkRepository.forRetrieval w.db kb).length = corpus'.passages.length := by
    have map : (ChunkRepository.newChunks document kb 1 first (corpusRows corpus)).map (·.row) =
        corpusRows corpus := newChunks_map_row
    rw [chunks, same, ← length_corpusRows corpus, ← congrArg List.length map, List.length_map]
  rw [ensureDocument, stored]
  dsimp only
  rw [if_neg (not_not.mpr count), id]

/-- What an embedding does not write is all that counts. -/
theorem keeps (h : Filled kb corpus document w) {s : Shared}
    (after : Embeddable w.db document s.db) :
  Filled kb corpus document { w with shared := s }
  := by
  obtain ⟨row, base⟩ := h.base
  obtain ⟨d, found, hkb, hash, version⟩ := h.found
  obtain ⟨d', found', same⟩ := EmbeddingService.getById_of_keeps after.keeps found
  refine ⟨after.wellFormed, ⟨row, ?_⟩, ?_, ⟨d', found', ?_, ?_, ?_⟩, after.status, ?_⟩
  · have bases : s.db.knowledgeBases = w.db.knowledgeBases := after.keeps.knowledgeBases
    unfold KnowledgeBaseRepository.getById at base ⊢
    change s.db.knowledgeBases.find? _ = _
    rw [bases]
    exact base
  · intro e he hkb'
    have fixed : e.fixed ∈ w.db.documents.map Document.fixed := by
      rw [← after.keeps.documents]
      exact List.mem_map_of_mem he
    obtain ⟨old, hold, same⟩ := List.mem_map.mp fixed
    have id : old.id = e.id := (congrArg Document.id same :)
    have kbId : old.kbId = e.kbId := (congrArg Document.kbId same :)
    rw [← id]
    exact h.only old hold (kbId.trans hkb')
  · exact (congrArg Document.kbId same :).trans hkb
  · exact (congrArg Document.contentHash same :).trans hash
  · exact (congrArg Document.docVersion same :).trans version
  · obtain ⟨first, chunks, metas⟩ := h.chunks
    refine ⟨first, ?_, metas⟩
    change s.db.chunks.filter _ = _
    rw [after.keeps.chunks]
    exact chunks

theorem embeddable (h : Filled kb corpus document w) :
  Embeddable w.db document w.db
  := ⟨Keeps.refl w.db, h.wellFormed, h.status⟩

end Filled

/-- New chunks hold the passages whose texts and metas they have got. -/
theorem newChunks_passages {rows : List ChunkRow} {passages : List Passage} {first : ChunkId}
    (texts : rows.map (·.content) = passages.map (·.text))
    (metas : (List.range' first passages.length).map (fun id => w.metas.lookup id) =
      passages.map fun p => some p.chunkMeta) :
  (ChunkRepository.newChunks document kb 1 first rows).map w.passageOf = passages.map some
  := by
  induction rows generalizing first passages with
  | nil =>
    rw [List.map_eq_nil_iff.mp texts.symm]
    rfl
  | cons row rows ih =>
    cases passages with
    | nil => cases texts
    | cons p passages =>
      rw [List.map_cons, List.map_cons, List.cons.injEq] at texts
      rw [List.length_cons, List.range'_succ, List.map_cons, List.map_cons, List.cons.injEq] at metas
      rw [ChunkRepository.newChunks, List.map_cons, List.map_cons, ih texts.2 metas.2]
      congr 1
      change (w.metas.lookup first).map _ = _
      rw [metas.1]
      change some (⟨p.passageId, p.title, row.content⟩ : Passage) = some p
      rw [texts.1]

theorem corpusRows_content (corpus : Corpus) :
  (corpusRows corpus).map (·.content) = corpus.passages.map (·.text)
  := by
  apply List.ext_getElem
  · rw [List.length_map, List.length_map, length_corpusRows]
  · intro i hi hi'
    simp [corpusRows]

/-- If all chunks are embedded, they are the passages. -/
theorem Filled.holds (h : Filled kb corpus document w)
    (all : ∀ c ∈ ChunkRepository.forRetrieval w.db kb, isEmbedded w.db kb c) :
  Holds kb corpus w
  := by
  obtain ⟨first, chunks, metas⟩ := h.forRetrieval_eq
  rw [Holds, List.filter_eq_self.mpr all, chunks]
  exact newChunks_passages (corpusRows_content corpus) metas

/-- What `_ensure_document` has written for a hash that is not there. -/
theorem ensureDocument_new (none : DocumentRepository.findByContentHash w.db kb corpus.sha256 = none)
    (ensures : ensureDocument kb corpus newId w = .ok (document, w')) :
  ∃ created written, document = newId ∧
    createDocument w.shared.now w.db newId kb evalMime corpus.sha256 = .ok created ∧
    ChunkRepository.replaceForVersion newId kb 1 (corpusRows corpus) created =
      .ok ((corpusRows corpus).length, written) ∧
    w'.db = (DocumentRepository.setStatus w.shared.now
      { document := newId, status := .chunked } written).2 ∧
    w'.metas = (List.range' w.db.nextChunk corpus.passages.length).zip
      (corpus.passages.map Passage.chunkMeta) ++ w.metas
  := by
  rw [ensureDocument, none] at ensures
  obtain ⟨created, hcreated, ensures⟩ := ok_of_bind ensures
  obtain ⟨⟨count, written⟩, hwritten, ensures⟩ := ok_of_bind ensures
  cases ensures
  have hwritten := ok_of_mapError hwritten
  have number : count = (corpusRows corpus).length := by
    unfold ChunkRepository.replaceForVersion at hwritten
    split_ifs at hwritten
    cases hwritten
    rfl
  rw [number] at hwritten
  exact ⟨created, written, rfl, ok_of_mapError hcreated, hwritten, rfl, rfl⟩

/-- The first document of a knowledge base. -/
theorem Empty.fill (h : Empty kb w)
    (ensures : ensureDocument kb corpus newId w = .ok (document, w')) :
  Filled kb corpus document w'
  := by
  have none : DocumentRepository.findByContentHash w.db kb corpus.sha256 = none := by
    apply List.find?_eq_none.mpr
    intro d hd found
    rw [Bool.and_eq_true, decide_eq_true_eq] at found
    exact h.documents d (List.mem_of_mem_filter hd) found.1
  obtain ⟨created, written, rfl, hcreated, hwritten, db, metas⟩ := ensureDocument_new none ensures
  obtain ⟨row, base⟩ := h.base
  have creates := effect_create hcreated
  have replaces : Effect 0 _ _ _ := effect_replace hwritten
  have wellFormed : WellFormed w'.db := by
    rw [db]
    have ready (u : StatusUpdate) (db : Db) : Effect w.shared.now db _ _ := Effect.setStatus u
    exact ((h.wellFormed.effect creates).effect replaces).effect (ready _ _)
  have fresh : ∀ d ∈ w.db.documents, d.id ≠ document := by
    cases creates with
    | create fresh key => exact fresh
    | plain plain => cases plain
    | upsert writes =>
      obtain ⟨⟨⟩⟩ | ⟨_, _, ⟨⟩, _⟩ := writes
  unfold createDocument DocumentRepository.create at hcreated
  split_ifs at hcreated
  cases hcreated
  unfold ChunkRepository.replaceForVersion at hwritten
  split_ifs at hwritten
  cases hwritten
  have documents : w'.db.documents =
      Table.update (StatusUpdate.hits { document := document, status := .chunked })
        (StatusUpdate.write { document := document, status := .chunked } w.shared.now)
        (w.db.documents ++ [newDocument w.shared.now document kb evalMime corpus.sha256]) := by
    rw [db]
    rfl
  have chunks : w'.db.chunks =
      w.db.chunks.filter (fun c => !ChunkRepository.ofVersion document 1 c) ++
        ChunkRepository.newChunks document kb 1 w.db.nextChunk (corpusRows corpus) := by
    rw [db]
    rfl
  have bases : w'.db.knowledgeBases = w.db.knowledgeBases := by
    rw [db]
    rfl
  refine ⟨wellFormed, ⟨row, ?_⟩, ?_, ?_, ?_, w.db.nextChunk, ?_, ?_⟩
  · unfold KnowledgeBaseRepository.getById at base ⊢
    rw [bases]
    exact base
  · intro d hd hkb
    rw [documents] at hd
    obtain ⟨old, hold, rfl⟩ := Table.mem_update.mp hd
    rcases List.mem_append.mp hold with hold | hold
    · have kbId : old.kbId = kb := by
        split at hkb <;> exact hkb
      exact absurd kbId (h.documents old hold)
    · rw [List.mem_singleton.mp hold]
      split <;> rfl
  · refine ⟨StatusUpdate.write { document := document, status := .chunked } w.shared.now
      (newDocument w.shared.now document kb evalMime corpus.sha256), ?_, rfl, rfl, rfl⟩
    unfold DocumentRepository.getById DocumentRepository.queryset
    rw [documents, Table.update, List.map_append, List.filter_append, List.find?_append,
      List.find?_eq_none.mpr]
    · simp [newDocument, StatusUpdate.hits, StatusUpdate.write, Document.visible]
    · intro d hd found
      obtain ⟨old, hold, rfl⟩ := List.mem_map.mp (List.mem_of_mem_filter hd)
      have id : old.id = document := by
        have found := of_decide_eq_true found
        split at found <;> exact found
      exact fresh old hold id
  · intro d hd id
    rw [documents] at hd
    obtain ⟨old, hold, rfl⟩ := Table.mem_update.mp hd
    rcases List.mem_append.mp hold with hold | hold
    · have id : old.id = document := by
        split at id <;> exact id
      exact absurd id (fresh old hold)
    · rw [List.mem_singleton.mp hold]
      simp [newDocument, StatusUpdate.hits, StatusUpdate.write, Document.visible,
        embeddableStatuses]
  · rw [chunks, List.filter_append]
    have others : (w.db.chunks.filter fun c => !ChunkRepository.ofVersion document 1 c).filter
        (·.kbId = kb) = [] := by
      apply List.filter_eq_nil_iff.mpr
      intro c hc hkb
      exact h.chunks c (List.mem_of_mem_filter hc) (of_decide_eq_true hkb)
    rw [others, List.nil_append]
    apply List.filter_eq_self.mpr
    intro c hc
    exact decide_eq_true (mem_newChunks hc).2.1
  · rw [metas]
    have length : (List.range' w.db.nextChunk corpus.passages.length).length =
        (corpus.passages.map Passage.chunkMeta).length := by
      rw [List.length_range', List.length_map]
    rw [Dict.map_lookup_zip List.nodup_range' length, List.map_map]
    rfl

/-! ### A call -/

/-- The failure of a provider is not permanent. -/
def Transient (e : Exn) : Prop :=
  e.provider?.any (!·.retryable) = false

/-- Nothing is raised in a call. -/
structure Undisturbed (call : Call) : Prop where
  entry : call.entry = none
  answers : ∀ e, .raised e ∉ call.answers
  exit : call.exit = none

/-- A call for the corpus whose document is there. -/
theorem Filled.ingest (h : Filled kb corpus document w) {call : Call} {outcome : Outcome}
    {A : Exn → Prop} (transient : ∀ e, A e → Transient e)
    (allowed : ∀ e, .raised e ∈ call.answers → A e) (hash : call.corpus.sha256 = corpus.sha256)
    (same : call.corpus.passages = corpus.passages)
    (step : ingestCorpus cfg kb call w = some (outcome, w')) :
  Filled kb corpus document w' ∧ Keeps w.db w'.db ∧ w'.metas = w.metas ∧
    (∀ m, outcome = some (.ok m) → m = passageMap kb w' ∧
      ∀ c ∈ ChunkRepository.forRetrieval w'.db kb, isEmbedded w'.db kb c) ∧
    ∀ e, outcome = some (.error e) → call.entry.isSome ∨ call.exit.isSome ∨ ∃ e', A e'
  := by
  unfold ingestCorpus at step
  cases entry : call.entry with
  | some e =>
    rw [entry] at step
    dsimp only at step
    split_ifs at step
    cases step
    refine ⟨h, Keeps.refl _, rfl, nofun, fun _ _ => .inl rfl⟩
  | none =>
    rw [entry, h.ensureDocument_eq hash same] at step
    dsimp only at step
    obtain ⟨⟨result, s⟩, run, step⟩ := Option.map_eq_some_iff.mp step
    obtain ⟨d, found, hkb, -, version⟩ := h.found
    obtain ⟨row, base⟩ := h.base
    have served : Serves cfg A _ _ _ _ :=
      EmbeddingService.serves_embedDocument call.batches found (hkb.symm ▸ base) transient
    obtain ⟨after, fails, returns⟩ := served.sound h.embeddable trivial allowed run
    have filled := h.keeps after
    have embedded (x : EmbeddingService.EmbeddingResult) (hx : result = some (.ok x)) :
        ∀ c ∈ ChunkRepository.forRetrieval s.db kb, isEmbedded s.db kb c := by
      intro c hc
      obtain ⟨first, chunks, -⟩ := filled.forRetrieval_eq
      have mem : c ∈ ChunkRepository.newChunks document kb 1 first (corpusRows corpus) := by
        rw [← chunks]
        exact hc
      obtain ⟨own, -, isVersion, active⟩ := mem_newChunks mem
      have stored : c ∈ s.db.chunks := by
        unfold ChunkRepository.forRetrieval at hc
        exact List.mem_of_mem_filter ((List.mem_insertionSort _).mp hc)
      obtain ⟨model, has⟩ := returns x hx c
        (mem_activeForVersion.mpr ⟨stored, own, isVersion.trans version.symm, active⟩)
      have base' : KnowledgeBaseRepository.getById s.db kb = some row := by
        unfold KnowledgeBaseRepository.getById at base ⊢
        rw [after.keeps.knowledgeBases]
        exact base
      rw [isEmbedded, base', Option.any_some]
      apply List.any_eq_true.mpr
      refine ⟨_, embedded_iff.mp has, ?_⟩
      simp
    cases result with
    | none =>
      cases step
      exact ⟨filled, after.keeps, rfl, nofun, nofun⟩
    | some result =>
      cases result with
      | error e =>
        cases step
        exact ⟨filled, after.keeps, rfl, nofun, fun _ _ => .inr (.inr ⟨e, fails e rfl⟩)⟩
      | ok x =>
        cases exit : call.exit with
        | some e =>
          rw [exit] at step
          cases step
          exact ⟨filled, after.keeps, rfl, nofun, fun _ _ => .inr (.inl rfl)⟩
        | none =>
          rw [exit] at step
          cases step
          refine ⟨filled, after.keeps, rfl, ?_, nofun⟩
          rintro m ⟨⟩
          exact ⟨rfl, embedded x rfl⟩

/-! ### Runs -/

/-- The call is for the corpus of the knowledge base, if it has one, and the provider does not fail
permanently. -/
structure Steady (kb : KbId) (corpora : Set Corpus) (w : Workspace) (call : Call) : Prop where
  known : call.corpus ∈ corpora
  same : ∀ d ∈ w.db.documents, d.kbId = kb → d.contentHash = call.corpus.sha256
  transient : ∀ e, .raised e ∈ call.answers → Transient e

/-- Different passages have different hashes. -/
def Digested (corpora : Set Corpus) : Prop :=
  ∀ x ∈ corpora, ∀ y ∈ corpora, x.sha256 = y.sha256 → x.passages = y.passages

/-- The knowledge base is empty or filled with one of the corpora. -/
def Kept (kb : KbId) (corpora : Set Corpus) (w : Workspace) : Prop :=
  Empty kb w ∨ ∃ corpus ∈ corpora, ∃ document, Filled kb corpus document w

variable {corpora : Set Corpus}

/-- Where the document has just been made, it might have been there before. -/
theorem ingestCorpus_eq {call : Call} (entry : call.entry = none)
    (ensures : ensureDocument kb call.corpus call.newId w = .ok (document, w'))
    (filled : Filled kb call.corpus document w') :
  ingestCorpus cfg kb call w = ingestCorpus cfg kb call w'
  := by
  unfold ingestCorpus
  rw [entry, ensures, filled.ensureDocument_eq rfl rfl]

/-- What a steady call does. -/
theorem Kept.ingest (h : Kept kb corpora w) (digested : Digested corpora) {call : Call}
    (steady : Steady kb corpora w call) {outcome : Outcome}
    (step : ingestCorpus cfg kb call w = some (outcome, w')) :
  Kept kb corpora w' ∧ ∀ m, outcome = some (.ok m) →
    ∃ corpus ∈ corpora, ∃ document, Filled kb corpus document w' ∧
      call.corpus.sha256 = corpus.sha256 ∧ call.corpus.passages = corpus.passages ∧
      m = passageMap kb w' ∧ ∀ c ∈ ChunkRepository.forRetrieval w'.db kb, isEmbedded w'.db kb c
  := by
  rcases h with empty | ⟨corpus, hcorpus, document, filled⟩
  · cases entry : call.entry with
    | some e =>
      unfold ingestCorpus at step
      rw [entry] at step
      dsimp only at step
      split_ifs at step
      cases step
      exact ⟨.inl empty, nofun⟩
    | none =>
      cases ensures : ensureDocument kb call.corpus call.newId w with
      | error e =>
        unfold ingestCorpus at step
        rw [entry, ensures] at step
        cases step
        exact ⟨.inl empty, nofun⟩
      | ok made =>
        obtain ⟨document, v⟩ := made
        have filled := empty.fill ensures
        rw [ingestCorpus_eq entry ensures filled] at step
        obtain ⟨filled', -, -, returns, -⟩ :=
          filled.ingest (fun _ h => h) steady.transient rfl rfl step
        refine ⟨.inr ⟨call.corpus, steady.known, document, filled'⟩, fun m hm => ?_⟩
        obtain ⟨mapping, embedded⟩ := returns m hm
        exact ⟨call.corpus, steady.known, document, filled', rfl, rfl, mapping, embedded⟩
  · obtain ⟨d, found, hkb, hash, -⟩ := filled.found
    have same := (steady.same d (getById_mem found).1 hkb).symm.trans hash
    have passages := digested _ steady.known _ hcorpus same
    obtain ⟨filled', -, -, returns, -⟩ :=
      filled.ingest (fun _ h => h) steady.transient same passages step
    refine ⟨.inr ⟨corpus, hcorpus, document, filled'⟩, fun m hm => ?_⟩
    obtain ⟨mapping, embedded⟩ := returns m hm
    exact ⟨corpus, hcorpus, document, filled', same, passages, mapping, embedded⟩

theorem kept_of_run (digested : Digested corpora) {h : List (Workspace × Call)}
    (run : (evaluation cfg kb).Run h w) (steady : ∀ x ∈ h, Steady kb corpora x.1 x.2) :
  Kept kb corpora w
  := by
  apply run.invariant_of_guard (G := Steady kb corpora) _ _ steady
  · rintro w ⟨wellFormed, base, documents, chunks⟩
    exact .inl ⟨wellFormed, base, documents, chunks⟩
  · intro call w w' kept isSteady step
    obtain ⟨⟨outcome, v⟩, ingests, rfl⟩ := Option.map_eq_some_iff.mp step
    exact (kept.ingest digested isSteady ingests).1

end

/-! ### Two corpora -/

/-- A corpus of one passage. -/
def sampleCorpus (id : String) : Corpus where
  name := "drcd"
  passages := [⟨id, "", "text of " ++ id⟩]
  sha256 := "hash of " ++ id

/-- A call in which the provider is asked for `batches` batches. -/
def sampleCall (id : String) (newId : DocumentId) (batches : ℕ) : Call where
  corpus := sampleCorpus id
  newId := newId
  batches := batches
  answers := List.replicate 5 .done ++
    (List.replicate batches [Answer.reported "m", .done]).flatten ++ List.replicate 2 .done

def sampleWorkspace : Workspace where
  shared := { db := { knowledgeBases := [{ id := 1 }] } }

theorem sampleWorkspace_init : (evaluation sampleSettings 1).init sampleWorkspace := by
  refine ⟨wellFormed_of_initial sampleWorld_initial, ⟨_, rfl⟩, ?_, ?_⟩
  · exact fun _ h => nomatch h
  · exact fun _ h => nomatch h

theorem undisturbed_sampleCall (id : String) (newId : DocumentId) (batches : ℕ) :
  Undisturbed (sampleCall id newId batches)
  := by
  refine ⟨rfl, fun e he => ?_, rfl⟩
  simp [sampleCall] at he

end Lumina.Evaluation
