import Lumina.Knowledge.Effects
import Lumina.Knowledge.System
import Mathlib.Data.List.Range

/-!
# The constraints of the tables hold in every reachable state

Unique keys, foreign keys and fresh identifiers, as an invariant of the transactions and so of
every run of the system.
-/

namespace Lumina.Knowledge

open Transition

/-! ### Small facts about the repositories -/

section NewChunks

variable {document : DocumentId} {kb : KbId} {docVersion : ℕ} {id : ChunkId}
  {rows : List ChunkRow}

open ChunkRepository

@[simp]
theorem newChunks_map_id :
  (newChunks document kb docVersion id rows).map (·.id) = List.range' id rows.length
  := by
  induction rows generalizing id with
  | nil => rfl
  | cons row rows ih =>
    rw [newChunks, List.map_cons, ih, List.length_cons, List.range'_succ]

@[simp]
theorem newChunks_map_row :
  (newChunks document kb docVersion id rows).map (·.row) = rows
  := by
  induction rows generalizing id with
  | nil => rfl
  | cons row rows ih => rw [newChunks, List.map_cons, ih]

/-- A new chunk is an active one of the version. -/
theorem mem_newChunks {c : Chunk} (h : c ∈ newChunks document kb docVersion id rows) :
  c.documentId = document ∧ c.kbId = kb ∧ c.docVersion = docVersion ∧ c.superseded = false
  := by
  induction rows generalizing id with
  | nil => cases h
  | cons row rows ih =>
    obtain rfl | h := List.mem_cons.mp h
    · exact ⟨rfl, rfl, rfl, rfl⟩
    · apply ih h

theorem mem_newChunks_id {c : Chunk} (h : c ∈ newChunks document kb docVersion id rows) :
  id ≤ c.id ∧ c.id < id + rows.length
  := by
  have hid : c.id ∈ (newChunks document kb docVersion id rows).map (·.id) :=
    List.mem_map_of_mem h
  rw [newChunks_map_id, List.mem_range'_1] at hid
  apply hid

theorem newChunks_ne_nil (document : DocumentId) (kb : KbId) (docVersion : ℕ) (id : ChunkId)
    (h : rows ≠ []) :
  ∃ c, c ∈ newChunks document kb docVersion id rows
  := by
  cases rows with
  | nil => exact absurd rfl h
  | cons row rows => exact ⟨_, List.mem_cons_self⟩

end NewChunks

theorem ofVersion_iff {document : DocumentId} {docVersion : ℕ} {c : Chunk} :
  ChunkRepository.ofVersion document docVersion c ↔
    c.documentId = document ∧ c.docVersion = docVersion
  := by
  rw [ChunkRepository.ofVersion, Bool.and_eq_true, decide_eq_true_eq, decide_eq_true_eq]

/-- The chunks of a version have no embedding when nothing refers to the version. -/
theorem not_referenced {db : Db} {document : DocumentId} {docVersion : ℕ}
    (h : ChunkRepository.referenced db document docVersion = false) {c : Chunk}
    (hc : c ∈ db.chunks) (hv : ChunkRepository.ofVersion document docVersion c) {e : Embedding}
    (he : e ∈ db.embeddings) :
  e.chunkId ≠ c.id
  := by
  intro hid
  rw [ChunkRepository.referenced, List.any_eq_false] at h
  apply h c hc
  rw [Bool.and_eq_true, List.any_eq_true]
  exact ⟨hv, e, he, decide_eq_true hid⟩

/-- A request finds the updated row. -/
theorem getById_update {db db' : Db} {p : Document → Bool} {f : Document → Document}
    (hdb : db'.documents = Table.update p f db.documents)
    (hf : ∀ d, (f d).visible = d.visible ∧ (f d).id = d.id) (document : DocumentId) :
  DocumentRepository.getById db' document =
    (DocumentRepository.getById db document).map fun d => if p d then f d else d
  := by
  unfold DocumentRepository.getById DocumentRepository.queryset
  rw [List.find?_filter, List.find?_filter, hdb]
  apply Table.find?_update
  intro d
  rw [(hf d).1, (hf d).2]

/-- A request finds the row with its new status. -/
theorem getById_setStatus (now : ℕ) (u : StatusUpdate) (db : Db) (document : DocumentId) :
  DocumentRepository.getById (DocumentRepository.setStatus now u db).2 document =
    (DocumentRepository.getById db document).map fun d => if u.hits d then u.write now d else d
  := by
  apply getById_update
  · rfl
  · exact fun d => ⟨rfl, rfl⟩

/-- After the chunks of a document have been superseded, none of its chunks is active. -/
theorem superseded_of_document {db : Db} {document : DocumentId} {c : Chunk}
    (hc : c ∈ (ChunkRepository.supersedeForDocument document db).chunks)
    (hdoc : c.documentId = document) :
  c.superseded = true
  := by
  obtain ⟨old, hold, rfl⟩ := Table.mem_update.mp hc
  split
  · rfl
  next hp =>
    rw [if_neg hp] at hdoc
    rw [Bool.and_eq_true, decide_eq_true_eq, Bool.not_eq_true', not_and] at hp
    apply eq_true_of_ne_false (hp hdoc)

/-- An active chunk after that was an active chunk before. -/
theorem mem_of_active_supersede {db : Db} {document : DocumentId} {c : Chunk}
    (hc : c ∈ (ChunkRepository.supersedeForDocument document db).chunks)
    (hactive : c.superseded = false) :
  c ∈ db.chunks
  := by
  obtain ⟨old, hold, rfl⟩ := Table.mem_update.mp hc
  split at hactive
  · cases hactive
  next hp =>
    rw [if_neg hp]
    apply hold

/-- A chunk after that is a chunk before, as far as it is not about being superseded; those of the
other documents are the same. -/
theorem mem_supersede {db : Db} {document : DocumentId} {c : Chunk}
    (hc : c ∈ (ChunkRepository.supersedeForDocument document db).chunks) :
  ∃ old ∈ db.chunks, old.documentId = c.documentId ∧ old.docVersion = c.docVersion ∧
    (c.documentId ≠ document → old = c)
  := by
  obtain ⟨old, hold, rfl⟩ := Table.mem_update.mp hc
  use old, hold
  split
  next hp =>
    rw [Bool.and_eq_true, decide_eq_true_eq] at hp
    exact ⟨rfl, rfl, fun hne => absurd hp.1 hne⟩
  next => exact ⟨rfl, rfl, fun _ => rfl⟩

theorem embedded_iff {db : Db} {model : String} {embeddingVersion : ℕ} {chunk : ChunkId} :
  EmbeddingRepository.embedded db model embeddingVersion chunk ↔
    { chunkId := chunk, model := model, embeddingVersion := embeddingVersion } ∈ db.embeddings
  := by
  unfold EmbeddingRepository.embedded
  rw [List.any_eq_true]
  constructor
  · rintro ⟨e, he, h⟩
    rw [Bool.and_eq_true, Bool.and_eq_true, decide_eq_true_eq, decide_eq_true_eq,
      decide_eq_true_eq] at h
    obtain ⟨⟨rfl, rfl⟩, rfl⟩ := h
    apply he
  · intro he
    refine ⟨_, he, ?_⟩
    simp

/-! ### The constraints -/

/-- The constraints of the tables. -/
structure WellFormed (db : Db) : Prop where
  knowledgeBaseIds : (db.knowledgeBases.map (·.id)).Nodup
  documentIds : (db.documents.map (·.id)).Nodup
  documentKb : ∀ d ∈ db.documents, ∃ kb ∈ db.knowledgeBases, kb.id = d.kbId
  chunkIds : (db.chunks.map (·.id)).Nodup
  fresh : ∀ c ∈ db.chunks, c.id < db.nextChunk
  chunkDocument : ∀ c ∈ db.chunks, ∃ d ∈ db.documents, d.id = c.documentId
  embeddingKeys : db.embeddings.Nodup
  embeddingChunk : ∀ e ∈ db.embeddings, ∃ c ∈ db.chunks, c.id = e.chunkId

namespace WellFormed

variable {now : ℕ} {db db' : Db} {t : Tx}

/-- The row that a request has found is the only one that it updates. -/
theorem eq_of_found (h : WellFormed db) {document : DocumentId} {found : Document}
    (hfound : DocumentRepository.getById db document = some found) {d : Document}
    (hd : d ∈ db.documents) (hp : d.visible && d.id = document) :
  d = found
  := by
  rw [Bool.and_eq_true, decide_eq_true_eq] at hp
  obtain ⟨hmem, -, hid⟩ := getById_mem hfound
  apply Table.eq_of_key h.documentIds hd hmem (hp.2.trans hid.symm)

/-- The constraints are about the tables without the jobs. -/
theorem of_data (h : WellFormed db) (hdata : db'.data = db.data) : WellFormed db' := by
  have same : WellFormed db.data :=
    { knowledgeBaseIds := h.knowledgeBaseIds
      documentIds := h.documentIds
      documentKb := h.documentKb
      chunkIds := h.chunkIds
      fresh := h.fresh
      chunkDocument := h.chunkDocument
      embeddingKeys := h.embeddingKeys
      embeddingChunk := h.embeddingChunk }
  rw [← hdata] at same
  exact
    { knowledgeBaseIds := same.knowledgeBaseIds
      documentIds := same.documentIds
      documentKb := same.documentKb
      chunkIds := same.chunkIds
      fresh := same.fresh
      chunkDocument := same.chunkDocument
      embeddingKeys := same.embeddingKeys
      embeddingChunk := same.embeddingChunk }

/-- An update of the documents that keeps their ids and their knowledge bases. -/
theorem update_documents (h : WellFormed db) {p : Document → Bool} {f : Document → Document}
    (hf : ∀ d, (f d).id = d.id) (hkb : ∀ d, (f d).kbId = d.kbId) :
  WellFormed { db with documents := Table.update p f db.documents }
  := by
  have ids := Table.map_update (p := p) (·.id) hf db.documents
  refine { h with documentIds := ?_, documentKb := ?_, chunkDocument := ?_ }
  · rw [ids]
    apply h.documentIds
  · intro d hd
    obtain ⟨old, hold, rfl⟩ := Table.mem_update.mp hd
    obtain ⟨kb, hmem, hid⟩ := h.documentKb old hold
    use kb, hmem
    split
    · rw [hkb, hid]
    · apply hid
  · intro c hc
    obtain ⟨d, hd, hid⟩ := h.chunkDocument c hc
    have hmem : d.id ∈ (Table.update p f db.documents).map (·.id) := by
      rw [ids]
      apply List.mem_map_of_mem hd
    obtain ⟨d', hd', hid'⟩ := List.mem_map.mp hmem
    exact ⟨d', hd', hid'.trans hid⟩

/-- An update of the chunks that keeps their ids and their documents. -/
theorem update_chunks (h : WellFormed db) {p : Chunk → Bool} {f : Chunk → Chunk}
    (hid : ∀ c, (f c).id = c.id) (hdoc : ∀ c, (f c).documentId = c.documentId) :
  WellFormed { db with chunks := Table.update p f db.chunks }
  := by
  have ids := Table.map_update (p := p) (·.id) hid db.chunks
  have old : ∀ c ∈ Table.update p f db.chunks,
      ∃ c' ∈ db.chunks, c.id = c'.id ∧ c.documentId = c'.documentId := by
    intro c hc
    obtain ⟨c', hc', rfl⟩ := Table.mem_update.mp hc
    use c', hc'
    split
    · exact ⟨hid c', hdoc c'⟩
    · exact ⟨rfl, rfl⟩
  refine { h with chunkIds := ?_, fresh := ?_, chunkDocument := ?_, embeddingChunk := ?_ }
  · rw [ids]
    apply h.chunkIds
  · intro c hc
    obtain ⟨c', hc', hid', -⟩ := old c hc
    rw [hid']
    apply h.fresh c' hc'
  · intro c hc
    obtain ⟨c', hc', -, hdoc'⟩ := old c hc
    rw [hdoc']
    apply h.chunkDocument c' hc'
  · intro e he
    obtain ⟨c, hc, hce⟩ := h.embeddingChunk e he
    have hmem : c.id ∈ (Table.update p f db.chunks).map (·.id) := by
      rw [ids]
      apply List.mem_map_of_mem hc
    obtain ⟨c', hc', hid'⟩ := List.mem_map.mp hmem
    exact ⟨c', hc', hid'.trans hce⟩

theorem supersede (h : WellFormed db) (document : DocumentId) :
  WellFormed (ChunkRepository.supersedeForDocument document db)
  := by
  apply h.update_chunks (f := fun c => { c with superseded := true })
  all_goals exact fun _ => rfl

theorem switch (h : WellFormed db) (kb : KbId) (model : String)
    (embeddingVersion knowledgeVersion : ℕ) :
  WellFormed (KnowledgeBaseRepository.update kb model embeddingVersion knowledgeVersion db)
  := by
  have ids := Table.map_update (p := fun row => row.id = kb)
    (f := fun row =>
      { row with
        embeddingModel := model
        embeddingVersion := embeddingVersion
        indexedKnowledgeVersion := knowledgeVersion })
    (·.id) (fun _ => rfl) db.knowledgeBases
  refine { h with knowledgeBaseIds := ?_, documentKb := ?_ }
  · exact ids.symm ▸ h.knowledgeBaseIds
  · intro d hd
    obtain ⟨row, hrow, hid⟩ := h.documentKb d hd
    have hmem : row.id ∈ db.knowledgeBases.map (·.id) := List.mem_map_of_mem hrow
    rw [← ids] at hmem
    obtain ⟨row', hrow', hid'⟩ := List.mem_map.mp hmem
    exact ⟨row', hrow', hid'.trans hid⟩

theorem replace (h : WellFormed db) {document : DocumentId} {kb : KbId} {docVersion : ℕ}
    {rows : List ChunkRow} (free : ChunkRepository.referenced db document docVersion = false)
    (keys : rows ≠ [] → ∃ d ∈ db.documents, d.id = document) :
  WellFormed
    { db with
      chunks := db.chunks.filter (fun c => !ChunkRepository.ofVersion document docVersion c) ++
        ChunkRepository.newChunks document kb docVersion db.nextChunk rows
      nextChunk := db.nextChunk + rows.length
      committed := (document, docVersion) :: db.committed }
  := by
  refine { h with chunkIds := ?_, fresh := ?_, chunkDocument := ?_, embeddingChunk := ?_ }
  · rw [List.map_append, List.nodup_append]
    refine ⟨?_, ?_, ?_⟩
    · apply List.Sublist.nodup _ h.chunkIds
      apply List.filter_sublist.map
    · rw [newChunks_map_id]
      exact List.nodup_range'
    · intro x hx y hy
      rw [List.mem_map] at hx hy
      obtain ⟨c, hc, rfl⟩ := hx
      obtain ⟨c', hc', rfl⟩ := hy
      apply Nat.ne_of_lt
      apply lt_of_lt_of_le (h.fresh c (List.mem_of_mem_filter hc)) (mem_newChunks_id hc').1
  · intro c hc
    obtain hc | hc := List.mem_append.mp hc
    · apply lt_of_lt_of_le (h.fresh c (List.mem_of_mem_filter hc)) (Nat.le_add_right _ _)
    · apply (mem_newChunks_id hc).2
  · intro c hc
    obtain hc | hc := List.mem_append.mp hc
    · apply h.chunkDocument c (List.mem_of_mem_filter hc)
    · have hrows : rows ≠ [] := by
        rintro rfl
        cases hc
      rw [(mem_newChunks hc).1]
      apply keys hrows
  · intro e he
    obtain ⟨c, hc, hce⟩ := h.embeddingChunk e he
    use c
    constructor
    · apply List.mem_append_left
      rw [List.mem_filter]
      use hc
      rw [Bool.not_eq_true', Bool.eq_false_iff]
      intro hv
      apply not_referenced free hc hv he hce.symm
    · apply hce

theorem create (h : WellFormed db) {d : Document} (fresh : ∀ old ∈ db.documents, old.id ≠ d.id)
    (key : ∃ kb ∈ db.knowledgeBases, kb.id = d.kbId) :
  WellFormed { db with documents := db.documents ++ [d] }
  := by
  refine { h with documentIds := ?_, documentKb := ?_, chunkDocument := ?_ }
  · rw [List.map_append, List.nodup_append]
    refine ⟨h.documentIds, List.nodup_singleton _, ?_⟩
    intro x hx y hy
    rw [List.mem_map] at hx
    obtain ⟨old, hold, rfl⟩ := hx
    rw [List.map_singleton, List.mem_singleton] at hy
    rw [hy]
    apply fresh old hold
  · intro d' hd'
    obtain hd' | hd' := List.mem_append.mp hd'
    · apply h.documentKb d' hd'
    · rw [List.mem_singleton.mp hd']
      apply key
  · intro c hc
    obtain ⟨old, hold, hid⟩ := h.chunkDocument c hc
    exact ⟨old, List.mem_append_left _ hold, hid⟩

theorem insert (h : WellFormed db) {chunks : List ChunkId} {model : String}
    {embeddingVersion : ℕ} (exist : ∀ id ∈ chunks, ∃ c ∈ db.chunks, c.id = id)
    (distinct : chunks.Nodup) :
  WellFormed
    { db with
      embeddings := db.embeddings ++
        (chunks.filter fun id => !EmbeddingRepository.embedded db model embeddingVersion id).map
          fun id => { chunkId := id, model := model, embeddingVersion := embeddingVersion } }
  := by
  refine { h with embeddingKeys := ?_, embeddingChunk := ?_ }
  · rw [List.nodup_append]
    refine ⟨h.embeddingKeys, ?_, ?_⟩
    · apply List.Nodup.map
      · intro a b hab
        apply congrArg Embedding.chunkId hab
      · apply distinct.filter
    · rintro e he _ he' rfl
      rw [List.mem_map] at he'
      obtain ⟨id, hid, rfl⟩ := he'
      have new := List.of_mem_filter hid
      rw [Bool.not_eq_true', Bool.eq_false_iff] at new
      apply new (embedded_iff.mpr he)
  · intro e he
    obtain he | he := List.mem_append.mp he
    · apply h.embeddingChunk e he
    · rw [List.mem_map] at he
      obtain ⟨id, hid, rfl⟩ := he
      apply exist id (List.mem_of_mem_filter hid)

/-- Every committed transaction keeps the constraints. -/
theorem effect (h : WellFormed db) (he : Effect now db t db') : WellFormed db' := by
  cases he with
  | plain _ data => apply h.of_data data
  | stay _ data => apply h.of_data data
  | setStatus u =>
    apply h.update_documents (p := u.hits) (f := u.write now) (fun _ => rfl) fun _ => rfl
  | replace free keys => apply h.replace free keys
  | create fresh key => apply h.create fresh key
  | reingest found free =>
    apply (h.supersede _).update_documents
      (f := fun d => { d with docVersion := _, status := .uploaded, error := none, updatedAt := _ })
      (fun _ => rfl) fun _ => rfl
  | delete found =>
    apply (h.supersede _).update_documents (f := fun d => { d with deletedAt := some now })
      (fun _ => rfl) fun _ => rfl
  | upsert writes exist distinct data =>
    apply (h.insert exist distinct).of_data data
  | switch complete data => apply (h.switch _ _ _ _).of_data data

end WellFormed

/-! ### Runs -/

/-- A property of the database that every committed transaction keeps is kept by every step. -/
theorem keep_of_effect {cfg : Settings} {I : Db → Prop}
    (hI : ∀ now db t db', I db → Effect now db t db' → I db') (a : Action) (w w' : World)
    (h : I w.shared.db) (hstep : (system cfg).step a w = some w') :
  I w'.shared.db
  := by
  obtain same | ⟨t, commits⟩ := step_db hstep
  · rw [same]
    apply h
  · obtain ⟨r, hr⟩ := commits.commit
    apply hI _ _ t _ h (transact_effect hr)

theorem wellFormed_of_initial {w : World} (h : World.Initial w) : WellFormed w.shared.db := by
  obtain ⟨knowledgeBases, ids, rfl⟩ := h
  constructor
  · apply ids
  · apply List.nodup_nil
  · intro d hd
    cases hd
  · apply List.nodup_nil
  · intro c hc
    cases hc
  · intro c hc
    cases hc
  · apply List.nodup_nil
  · intro e he
    cases he

/-- The constraints hold in every state of every run. -/
theorem wellFormed_of_run {cfg : Settings} {h : List (World × Action)} {w : World}
    (run : (system cfg).Run h w) :
  ∀ u ∈ Machine.states h w, WellFormed u.shared.db
  := by
  apply run.forall_states (I := fun u => WellFormed u.shared.db)
  · intro s hs
    apply wellFormed_of_initial hs
  · intro a s t hs hstep
    apply keep_of_effect (fun _ _ _ _ hdb he => hdb.effect he) a s t hs hstep

/-- A property of the database that a transaction keeps exactly when it satisfies a guard holds
in all states of a run exactly when every commit of the run satisfies the guard. -/
theorem forall_states_iff_commits {cfg : Settings} {P : Db → Prop} {G : Db → Tx → Prop}
    (init : ∀ w, World.Initial w → P w.shared.db)
    (effect : ∀ now db t db', WellFormed db → P db → Effect now db t db' → (P db' ↔ G db t))
    {h : List (World × Action)} {w : World} (run : (system cfg).Run h w) :
  (∀ u ∈ Machine.states h w, P u.shared.db) ↔
    ∀ x ∈ h, ∀ t db, Commits cfg x.1 x.2 t db → G x.1.shared.db t
  := by
  apply run.forall_states_iff (W := fun u => WellFormed u.shared.db) (P := fun u => P u.shared.db)
    (G := fun u a => ∀ t db, Commits cfg u a t db → G u.shared.db t)
  · intro s hs
    exact ⟨wellFormed_of_initial hs, init s hs⟩
  · intro a s t hs hstep
    apply keep_of_effect (fun _ _ _ _ hdb he => hdb.effect he) a s t hs hstep
  · intro a s s' hW hP hstep
    by_cases hcommits : ∃ t db, Commits cfg s a t db
    · obtain ⟨t, db, commits⟩ := hcommits
      obtain ⟨r, hr⟩ := commits.commit
      rw [commits.step hstep, effect _ _ t db hW hP (transact_effect hr)]
      constructor
      · intro hG t' db' commits'
        rw [(commits.unique commits').1]
        apply hG
      · intro hG
        apply hG t db commits
    · obtain same | ⟨t, commits⟩ := step_db hstep
      · rw [same]
        constructor
        · intro _ t db commits
          exact absurd ⟨t, db, commits⟩ hcommits
        · intro _
          apply hP
      · exact absurd ⟨t, _, commits⟩ hcommits

end Lumina.Knowledge
