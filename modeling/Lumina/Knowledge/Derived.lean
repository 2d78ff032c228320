import Lumina.Knowledge.Growth
import Lumina.Knowledge.Interference

/-!
# What the ingestion stores is determined by the original

As long as the originals stay in the object storage as they were uploaded, every artifact and
every committed chunk stage of a document holds what the stages of `etl/` make of its original,
under the settings of its knowledge base: whichever run of the ingestion has written it, and
however the runs have been interrupted and repeated.
-/

namespace Lumina.Knowledge

open Interleaving Transition
open Fallible (ok_of_bind)

/-- What the services rely on of the stages of `etl/`: the artifact of a cleaned document is read
back as it was written, and the chunks are numbered in their order. -/
structure EtlLaws (etl : Etl) : Prop where
  fromJson_toJson : ∀ raw, etl.fromJson (etl.toJson (etl.clean raw)) = .ok (etl.clean raw)
  seq : ∀ doc config, (etl.chunkDocument doc config).map (·.seq) =
    List.range (etl.chunkDocument doc config).length

section

variable (cfg : Settings) (contents : DocumentId → String)

/-- The cleaned document that an original leads to. -/
def cleanedOf (content mediaType : String) : Except Exn ExtractedDoc := do
  let raw ← cfg.etl.extractIsolated content mediaType
  return cfg.etl.clean raw

/-- The rows of the chunks of a cleaned document. -/
def rowsOf (doc : ExtractedDoc) (config : ChunkConfig) : List ChunkRow :=
  (cfg.etl.chunkDocument doc config).map IngestionService.chunkRow

/-- The originals are in the object storage as they were uploaded. -/
def Stored (s : Shared) : Prop :=
  ∀ d ∈ s.db.documents, s.object d.storageKey = some (contents d.id)

/-- The rows that a document leads to. -/
def Expected (db : Db) (d : Document) (rows : List ChunkRow) : Prop :=
  ∃ config doc,
    (KnowledgeBaseRepository.getById db d.kbId).map (·.config) = some config ∧
      cleanedOf cfg (contents d.id) d.mimeType = .ok doc ∧
      rows = rowsOf cfg doc (cfg.chunkConfigFrom config)

/-- The rows of a version of a document, in the order of the table. -/
def versionRows (db : Db) (document : DocumentId) (docVersion : ℕ) : List ChunkRow :=
  (db.chunks.filter (ChunkRepository.ofVersion document docVersion)).map (·.row)

/-- The tables hold what the originals lead to. -/
structure Derived (db : Db) : Prop where
  wellFormed : WellFormed db
  storageKey : ∀ d ∈ db.documents, d.storageKey = buildDocumentKey d.kbId d.id
  rows : ∀ d ∈ db.documents, ∀ docVersion, (d.id, docVersion) ∈ db.committed →
    Expected cfg contents db d (versionRows db d.id docVersion)
  stage : ∀ c ∈ db.chunks, (c.documentId, c.docVersion) ∈ db.committed
  stageDocument : ∀ x ∈ db.committed, ∃ d ∈ db.documents, d.id = x.1 ∧ x.2 ≤ d.docVersion
  active : ∀ d ∈ db.documents, d.visible → ∀ c ∈ db.chunks, c.documentId = d.id →
    c.docVersion = d.docVersion → c.superseded = false

/-- The artifacts hold what the originals lead to. -/
def Artifacts (s : Shared) : Prop :=
  ∀ key docVersion payload, (.cleaned key docVersion, payload) ∈ s.objects →
    ∃ d ∈ s.db.documents, d.storageKey = key ∧
      ∃ doc, cleanedOf cfg (contents d.id) d.mimeType = .ok doc ∧ payload = cfg.etl.toJson doc

/-- If the transaction commits a chunk stage, it is one of a document that is there, of a version
that it has had, with the rows that the original leads to. -/
def WritesExpected (db : Db) (t : Tx) : Prop :=
  ∀ document kb docVersion rows, t = .replaceForVersion document kb docVersion rows →
    ∃ d ∈ db.documents, d.id = document ∧ docVersion ≤ d.docVersion ∧ Expected cfg contents db d rows

end

section

variable {cfg : Settings} {contents : DocumentId → String} {now : ℕ} {db db' : Db} {t : Tx}

/-- What a document leads to does not change while the document grows. -/
theorem Expected.grows {d d' : Document} {rows : List ChunkRow}
    (h : Expected cfg contents db d rows) (hdb : Grows db db') (hd : d.Grows d') :
  Expected cfg contents db' d' rows
  := by
  obtain ⟨config, doc, hconfig, hdoc, hrows⟩ := h
  refine ⟨config, doc, ?_, ?_, hrows⟩
  · rw [hdb.config, hd.kbId, hconfig]
  · rw [hd.id, hd.mimeType, hdoc]

/-- The artifact of a cleaned document is read back. -/
theorem EtlLaws.fromJson_of_cleaned (laws : EtlLaws cfg.etl) {content mediaType : String}
    {doc : ExtractedDoc} (h : cleanedOf cfg content mediaType = .ok doc) :
  cfg.etl.fromJson (cfg.etl.toJson doc) = .ok doc
  := by
  obtain ⟨raw, -, h⟩ := ok_of_bind h
  cases h
  apply laws.fromJson_toJson

/-! ### The rows of a version -/

theorem versionRows_update {p : Chunk → Bool} (document : DocumentId) (docVersion : ℕ)
    (hdb : db'.chunks = Table.update p (fun c => { c with superseded := true }) db.chunks) :
  versionRows db' document docVersion = versionRows db document docVersion
  := by
  unfold versionRows
  rw [hdb]
  apply Table.map_filter_update
  · exact fun _ => rfl
  · exact fun _ => rfl

theorem filter_newChunks_self {document : DocumentId} {kb : KbId} {docVersion : ℕ} {id : ChunkId}
    {rows : List ChunkRow} :
  (ChunkRepository.newChunks document kb docVersion id rows).filter
      (ChunkRepository.ofVersion document docVersion) =
    ChunkRepository.newChunks document kb docVersion id rows
  := by
  rw [List.filter_eq_self]
  intro c hc
  obtain ⟨hdocument, -, hversion, -⟩ := mem_newChunks hc
  apply ofVersion_iff.mpr ⟨hdocument, hversion⟩

/-- The rows of the version that is written. -/
theorem versionRows_replace_self {document : DocumentId} {kb : KbId} {docVersion : ℕ}
    {rows : List ChunkRow}
    (hdb : db'.chunks =
      db.chunks.filter (fun c => !ChunkRepository.ofVersion document docVersion c) ++
        ChunkRepository.newChunks document kb docVersion db.nextChunk rows) :
  versionRows db' document docVersion = rows
  := by
  have old : (db.chunks.filter fun c => !ChunkRepository.ofVersion document docVersion c).filter
      (ChunkRepository.ofVersion document docVersion) = [] := by
    rw [List.filter_filter, List.filter_eq_nil_iff]
    intro c _
    rw [Bool.and_not_self]
    simp
  unfold versionRows
  rw [hdb, List.filter_append, old, List.nil_append, filter_newChunks_self, newChunks_map_row]

/-- The rows of the other versions stay. -/
theorem versionRows_replace_other {document document' : DocumentId} {kb : KbId}
    {docVersion docVersion' : ℕ} {rows : List ChunkRow}
    (hdb : db'.chunks =
      db.chunks.filter (fun c => !ChunkRepository.ofVersion document docVersion c) ++
        ChunkRepository.newChunks document kb docVersion db.nextChunk rows)
    (other : (document', docVersion') ≠ (document, docVersion)) :
  versionRows db' document' docVersion' = versionRows db document' docVersion'
  := by
  have apart : ∀ c, ChunkRepository.ofVersion document' docVersion' c →
      ¬ChunkRepository.ofVersion document docVersion c := by
    intro c h h'
    rw [ofVersion_iff] at h h'
    apply other
    rw [← h.1, ← h.2, h'.1, h'.2]
  have new : (ChunkRepository.newChunks document kb docVersion db.nextChunk rows).filter
      (ChunkRepository.ofVersion document' docVersion') = [] := by
    rw [List.filter_eq_nil_iff]
    intro c hc hc'
    obtain ⟨hdocument, -, hversion, -⟩ := mem_newChunks hc
    apply apart c hc'
    apply ofVersion_iff.mpr ⟨hdocument, hversion⟩
  unfold versionRows
  rw [hdb, List.filter_append, new, List.append_nil, List.filter_filter]
  congr 1
  apply List.filter_congr
  intro c _
  by_cases h : ChunkRepository.ofVersion document' docVersion' c
  · rw [h, Bool.true_and, Bool.not_eq_true', Bool.eq_false_iff]
    apply apart c h
  · rw [Bool.eq_false_iff.mpr h, Bool.false_and]

/-! ### One transaction -/

namespace Derived

/-- A transaction that brings no new document and no new chunks. -/
theorem keep (h : Derived cfg contents db) (wellFormed : WellFormed db') (grows : Grows db db')
    (documents : ∀ d' ∈ db'.documents, ∃ d ∈ db.documents, d.Grows d')
    (chunks : ∀ c' ∈ db'.chunks, ∃ c ∈ db.chunks,
      c.documentId = c'.documentId ∧ c.docVersion = c'.docVersion)
    (rows : ∀ document docVersion,
      versionRows db' document docVersion = versionRows db document docVersion)
    (committed : db'.committed = db.committed)
    (active : ∀ d ∈ db'.documents, d.visible → ∀ c ∈ db'.chunks, c.documentId = d.id →
      c.docVersion = d.docVersion → c.superseded = false) :
  Derived cfg contents db'
  := by
  constructor
  · apply wellFormed
  · intro d' hd'
    obtain ⟨d, hd, hgrows⟩ := documents d' hd'
    rw [hgrows.storageKey, hgrows.kbId, hgrows.id]
    apply h.storageKey d hd
  · intro d' hd' docVersion hcommitted
    obtain ⟨d, hd, hgrows⟩ := documents d' hd'
    rw [committed, hgrows.id] at hcommitted
    rw [rows, hgrows.id]
    apply (h.rows d hd docVersion hcommitted).grows grows hgrows
  · intro c' hc'
    obtain ⟨c, hc, hdocument, hversion⟩ := chunks c' hc'
    rw [committed, ← hdocument, ← hversion]
    apply h.stage c hc
  · intro x hx
    rw [committed] at hx
    obtain ⟨d, hd, hid, hversion⟩ := h.stageDocument x hx
    obtain ⟨d', hd', hgrows⟩ := grows.documents d hd
    exact ⟨d', hd', hgrows.id.trans hid, le_trans hversion hgrows.docVersion⟩
  · apply active

/-- A transaction that leaves the documents, the chunks and the chunk stages alone. -/
theorem of_eq (h : Derived cfg contents db) (wellFormed : WellFormed db') (grows : Grows db db')
    (documents : db'.documents = db.documents) (chunks : db'.chunks = db.chunks)
    (committed : db'.committed = db.committed) :
  Derived cfg contents db'
  := by
  apply h.keep wellFormed grows
  · intro d hd
    exact ⟨d, documents ▸ hd, .refl d⟩
  · intro c hc
    exact ⟨c, chunks ▸ hc, rfl, rfl⟩
  · intro document docVersion
    unfold versionRows
    rw [chunks]
  · apply committed
  · rw [documents, chunks]
    apply h.active

/-- The old rows of updated documents. -/
theorem documents_update {p : Document → Bool} {f : Document → Document}
    (hf : ∀ d ∈ db.documents, p d → d.Grows (f d)) (d' : Document)
    (hd' : d' ∈ Table.update p f db.documents) :
  ∃ d ∈ db.documents, d.Grows d'
  := by
  obtain ⟨d, hd, rfl⟩ := Table.mem_update.mp hd'
  use d, hd
  split
  next hp => apply hf d hd hp
  next => apply Document.Grows.refl

/-- The chunks of a document are superseded and the document gets a version without chunks, or
is deleted. -/
theorem supersede (h : Derived cfg contents db) {document : DocumentId}
    {f : Document → Document}
    (wellFormed : WellFormed
      { ChunkRepository.supersedeForDocument document db with
        documents := Table.update (fun d => d.visible && d.id = document) f db.documents })
    (grows : Grows db
      { ChunkRepository.supersedeForDocument document db with
        documents := Table.update (fun d => d.visible && d.id = document) f db.documents })
    (hf : ∀ d ∈ db.documents, d.visible && d.id = document → d.Grows (f d))
    (gone : ∀ d ∈ db.documents, d.visible && d.id = document → (f d).visible →
      d.docVersion < (f d).docVersion) :
  Derived cfg contents
    { ChunkRepository.supersedeForDocument document db with
      documents := Table.update (fun d => d.visible && d.id = document) f db.documents }
  := by
  apply h.keep wellFormed grows
  · apply documents_update hf
  · intro c' hc'
    obtain ⟨c, hc, hdocument, hversion, -⟩ := mem_supersede hc'
    exact ⟨c, hc, hdocument, hversion⟩
  · intro document docVersion
    apply versionRows_update document docVersion rfl
  · rfl
  · intro d' hd' hvisible c' hc' hcd hversion
    obtain ⟨c, hc, hdocument, hversion', same⟩ := mem_supersede hc'
    obtain ⟨d, hd, rfl⟩ := Table.mem_update.mp hd'
    split at hcd
    next hp =>
      rw [if_pos hp] at hvisible hversion
      have late : d.docVersion < c.docVersion := by
        rw [hversion', hversion]
        apply gone d hd hp hvisible
      obtain ⟨d', hd', hid, hle⟩ := h.stageDocument _ (h.stage c hc)
      have same : d' = d := by
        apply Table.eq_of_key h.wellFormed.documentIds hd' hd
        rw [hid, hdocument, hcd, (hf d hd hp).id]
      rw [same] at hle
      exact absurd late (not_lt.mpr hle)
    next hp =>
      rw [if_neg hp] at hvisible hversion
      have other : c'.documentId ≠ document := by
        rw [hcd]
        intro hid
        rw [Bool.and_eq_true, decide_eq_true_eq] at hp
        apply hp ⟨hvisible, hid⟩
      rw [← same other]
      rw [← same other] at hcd hversion
      apply h.active d hd hvisible c hc hcd hversion

/-- A new document has no chunk stages. -/
theorem create (h : Derived cfg contents db) {d : Document}
    (fresh : ∀ old ∈ db.documents, old.id ≠ d.id)
    (key : ∃ kb ∈ db.knowledgeBases, kb.id = d.kbId)
    (hkey : d.storageKey = buildDocumentKey d.kbId d.id) :
  Derived cfg contents { db with documents := db.documents ++ [d] }
  := by
  have unused : ∀ docVersion, (d.id, docVersion) ∉ db.committed := by
    intro docVersion hcommitted
    obtain ⟨old, hold, hid, -⟩ := h.stageDocument _ hcommitted
    apply fresh old hold hid
  constructor
  · apply h.wellFormed.create fresh key
  · intro d' hd'
    obtain hd' | hd' := List.mem_append.mp hd'
    · apply h.storageKey d' hd'
    · rw [List.mem_singleton.mp hd']
      apply hkey
  · intro d' hd' docVersion hcommitted
    obtain hd' | hd' := List.mem_append.mp hd'
    · apply h.rows d' hd' docVersion hcommitted
    · rw [List.mem_singleton.mp hd'] at hcommitted
      exact absurd hcommitted (unused docVersion)
  · apply h.stage
  · intro x hx
    obtain ⟨old, hold, hid⟩ := h.stageDocument x hx
    exact ⟨old, List.mem_append_left _ hold, hid⟩
  · intro d' hd' hvisible c hc hcd hversion
    obtain hd' | hd' := List.mem_append.mp hd'
    · apply h.active d' hd' hvisible c hc hcd hversion
    · rw [List.mem_singleton.mp hd'] at hcd
      have hstage := h.stage c hc
      rw [hcd] at hstage
      exact absurd hstage (unused c.docVersion)

/-- A chunk stage with the rows that the original leads to. -/
theorem replace (h : Derived cfg contents db) {document : DocumentId} {kb : KbId}
    {docVersion : ℕ} {rows : List ChunkRow}
    (he : Effect now db (.replaceForVersion document kb docVersion rows) db')
    (hwrites : WritesExpected cfg contents db (.replaceForVersion document kb docVersion rows)) :
  Derived cfg contents db'
  := by
  obtain ⟨d, hd, hid, hle, expected⟩ := hwrites _ _ _ _ rfl
  have wellFormed := h.wellFormed.effect he
  have grows := effect_grows h.wellFormed he
  cases he with
  | plain plain _ => cases plain
  | upsert writes _ _ _ =>
    obtain writes | ⟨_, _, writes, -⟩ := writes
    all_goals cases writes
  | replace free keys =>
    constructor
    · apply wellFormed
    · apply h.storageKey
    · intro d' hd' docVersion' hcommitted
      by_cases same : (d'.id, docVersion') = (document, docVersion)
      · cases same
        rw [versionRows_replace_self rfl]
        have hdd : d' = d := Table.eq_of_key h.wellFormed.documentIds hd' hd hid.symm
        rw [hdd]
        apply expected.grows grows (.refl d)
      · rw [versionRows_replace_other rfl same]
        obtain hcommitted | hcommitted := List.mem_cons.mp hcommitted
        · exact absurd hcommitted same
        · apply (h.rows d' hd' docVersion' hcommitted).grows grows (.refl d')
    · intro c hc
      obtain hc | hc := List.mem_append.mp hc
      · apply List.mem_cons_of_mem
        apply h.stage c (List.mem_of_mem_filter hc)
      · obtain ⟨hdocument, -, hversion, -⟩ := mem_newChunks hc
        rw [hdocument, hversion]
        apply List.mem_cons_self
    · intro x hx
      obtain rfl | hx := List.mem_cons.mp hx
      · exact ⟨d, hd, hid, hle⟩
      · apply h.stageDocument x hx
    · intro d' hd' hvisible c hc hcd hversion
      obtain hc | hc := List.mem_append.mp hc
      · apply h.active d' hd' hvisible c (List.mem_of_mem_filter hc) hcd hversion
      · apply (mem_newChunks hc).2.2.2

/-- Every committed transaction keeps the tables derived, if it writes what is expected. -/
theorem effect (h : Derived cfg contents db) (he : Effect now db t db')
    (hwrites : WritesExpected cfg contents db t) :
  Derived cfg contents db'
  := by
  have wellFormed := h.wellFormed.effect he
  have grows := effect_grows h.wellFormed he
  have committed := he
  cases he with
  | plain _ data =>
    apply h.of_eq wellFormed grows (congrArg Db.documents data :) (congrArg Db.chunks data :)
      (congrArg Db.committed data :)
  | stay _ data =>
    apply h.of_eq wellFormed grows (congrArg Db.documents data :) (congrArg Db.chunks data :)
      (congrArg Db.committed data :)
  | upsert writes exist distinct data =>
    apply h.of_eq wellFormed grows (congrArg Db.documents data :) (congrArg Db.chunks data :)
      (congrArg Db.committed data :)
  | switch complete data =>
    apply h.of_eq wellFormed grows (congrArg Db.documents data :) (congrArg Db.chunks data :)
      (congrArg Db.committed data :)
  | replace free keys =>
    apply h.replace committed hwrites
  | create fresh key => apply h.create fresh key rfl
  | setStatus u =>
    apply h.keep wellFormed grows
    · apply documents_update
      exact fun d _ _ => ⟨rfl, rfl, rfl, rfl, le_refl _, fun h => h⟩
    · exact fun c hc => ⟨c, hc, rfl, rfl⟩
    · exact fun _ _ => rfl
    · rfl
    · intro d' hd' hvisible c hc hcd hversion
      obtain ⟨d, hd, rfl⟩ := Table.mem_update.mp hd'
      split at hcd
      next hp =>
        rw [if_pos hp] at hvisible hversion
        apply h.active d hd hvisible c hc hcd hversion
      next hp =>
        rw [if_neg hp] at hvisible hversion
        apply h.active d hd hvisible c hc hcd hversion
  | @reingest document staleBefore found hfound free =>
    apply h.supersede wellFormed grows
    · intro d hd hp
      refine ⟨rfl, rfl, rfl, rfl, ?_, fun h => h⟩
      rw [h.wellFormed.eq_of_found hfound hd hp]
      apply Nat.le_succ
    · intro d hd hp _
      rw [h.wellFormed.eq_of_found hfound hd hp]
      apply Nat.lt_succ_self
  | delete found =>
    apply h.supersede wellFormed grows
    · intro d _ _
      refine ⟨rfl, rfl, rfl, rfl, le_refl _, ?_⟩
      intro hvisible
      cases hvisible
    · intro d _ _ hvisible
      cases hvisible

end Derived

end

end Lumina.Knowledge
