import Lumina.Knowledge.Operations

/-!
# The end of the retention

What was deleted long enough ago is purged for good: in one transaction the chunks, embeddings and
jobs of a batch of documents, then the objects, and in another transaction the documents and the
knowledge bases that are empty now.  A failure to delete an object is only logged.

Of a document the purge knows the key of the original.  The cleaned artifacts of its versions are
under keys that nothing looks up, and the rows are deleted whatever became of the objects; the last
theorem says when nothing is left behind all the same.
-/

namespace Lumina.Knowledge

/-- What the services share, with the columns that the purge goes by.  The key of a document is the
one it was given when it was created. -/
structure Archive where
  shared : Shared
  kbDeletedAt : KbId → Option ℕ
  createdAt : DocumentId → ℕ
  keyed : ∀ d ∈ shared.db.documents, d.storageKey = buildDocumentKey d.kbId d.id

/-- What a request to delete an object comes to.  One that is not answered may have done its work,
and raises. -/
inductive Deletion where
  | done
  | refused
  | unanswered
deriving DecidableEq, Repr

structure KnowledgePurgeCounts where
  knowledgeBases : ℕ := 0
  documents : ℕ := 0
  chunks : ℕ := 0
  objects : ℕ := 0
deriving DecidableEq, Repr

/-! ### The repositories -/

/-- `ChunkRepository.purge_for_documents`, embeddings first. -/
def purgeChunks (documents : List DocumentId) (db : Db) : ℕ × Db :=
  let gone (c : Chunk) : Bool := c.documentId ∈ documents
  (db.chunks.countP gone,
    { db with
      chunks := db.chunks.filter fun c => !gone c
      embeddings := db.embeddings.filter fun e =>
        !db.chunks.any fun c => c.id = e.chunkId && gone c })

/-- `EtlJobRepository.purge_for_documents`. -/
def purgeEtlJobs (documents : List DocumentId) (db : Db) : Db :=
  { db with etlJobs := db.etlJobs.filter fun job => job.key.documentId ∉ documents }

/-- `DocumentRepository.hard_delete`; the document of a chunk or a job is protected. -/
def hardDeleteDocuments (documents : List DocumentId) (db : Db) : Except Exn (ℕ × Db) :=
  if db.chunks.any (·.documentId ∈ documents) || db.etlJobs.any (·.key.documentId ∈ documents) then
    .error (.integrity "ProtectedError")
  else
    .ok (db.documents.countP (·.id ∈ documents),
      { db with documents := db.documents.filter (·.id ∉ documents) })

/-- `count_all_in_kb`. -/
def countAllInKb (db : Db) (kb : KbId) : ℕ :=
  db.documents.countP (·.kbId = kb)

/-- A row refers to one of the knowledge bases. -/
def protects (kbs : List KbId) (db : Db) : Bool :=
  db.documents.any (·.kbId ∈ kbs) || db.chunks.any (·.kbId ∈ kbs) ||
    db.reindexJobs.any (·.kbId ∈ kbs)

/-- `KnowledgeBaseRepository.hard_delete`; the knowledge base of a row is protected. -/
def hardDeleteKnowledgeBases (kbs : List KbId) (db : Db) : Except Exn (ℕ × Db) :=
  if protects kbs db then .error (.integrity "ProtectedError")
  else
    .ok (db.knowledgeBases.countP (·.id ∈ kbs),
      { db with knowledgeBases := db.knowledgeBases.filter (·.id ∉ kbs) })

/-! ### The service -/

/-- `_purge_objects`, with the number of deletions that have not raised. -/
def purgeObjects (outcome : ObjectKey → Deletion) :
    List ObjectKey → List (ObjectKey × String) → ℕ × List (ObjectKey × String)
  | [], objects => (0, objects)
  | key :: keys, objects =>
      let left := if outcome key = .refused then objects else objects.filter (·.1 ≠ key)
      let rest := purgeObjects outcome keys left
      (if outcome key = .done then rest.1 + 1 else rest.1, rest.2)

namespace Archive

variable (s : Archive) (outcome : ObjectKey → Deletion) (cutoff limit : ℕ)

/-- There is an object under the key. -/
def Stored (key : ObjectKey) : Prop :=
  key ∈ s.shared.objects.map (·.1)

/-- `purgeable`: documents that were deleted before the cutoff, or whose knowledge base was. -/
def purgeable : List Document :=
  let rows := s.shared.db.documents.filter fun d =>
    d.deletedAt.any (· < cutoff) || (s.kbDeletedAt d.kbId).any (· < cutoff)
  (rows.insertionSort fun a b => s.createdAt a.id ≤ s.createdAt b.id).take limit

/-- `deleted_before`. -/
def deletedBefore (db : Db) : List KbId :=
  let rows := db.knowledgeBases.filter fun kb => (s.kbDeletedAt kb.id).any (· < cutoff)
  ((rows.insertionSort fun a b =>
    (s.kbDeletedAt a.id).getD 0 ≤ (s.kbDeletedAt b.id).getD 0).take limit).map (·.id)

/-- The first transaction: the chunks and the jobs of the documents. -/
def clear (documents : List DocumentId) : ℕ × Db :=
  let (chunks, db) := purgeChunks documents s.shared.db
  (chunks, purgeEtlJobs documents db)

/-- The second transaction: the documents, and the knowledge bases without any. -/
def hardDelete (documents : List DocumentId) (db : Db) : Except Exn (ℕ × ℕ × Db) := do
  let (deleted, db) ← hardDeleteDocuments documents db
  let empty := (s.deletedBefore cutoff limit db).filter fun kb => countAllInKb db kb = 0
  let (knowledgeBases, db) ← hardDeleteKnowledgeBases empty db
  .ok (deleted, knowledgeBases, db)

/-- The documents after the second transaction. -/
theorem hardDelete_documents {documents : List DocumentId} {db db' : Db} {n m : ℕ}
    (h : s.hardDelete cutoff limit documents db = .ok (n, m, db')) :
  db'.documents = db.documents.filter (·.id ∉ documents)
  := by
  unfold hardDelete hardDeleteDocuments hardDeleteKnowledgeBases at h
  split at h
  · cases h
  · simp only [bind, Except.bind] at h
    split at h
    · cases h
    · case h_2 heq =>
      split at heq
      · cases heq
      · cases heq
        cases h
        rfl

/-- `purge_for_tenant`.  If the second transaction raises, what was before it has happened. -/
def purgeForTenant : Except Exn KnowledgePurgeCounts × Archive :=
  let targets := s.purgeable cutoff limit
  let ids := targets.map (·.id)
  let cleared := s.clear ids
  let purged := purgeObjects outcome (targets.map (·.storageKey)) s.shared.objects
  match h : s.hardDelete cutoff limit ids cleared.2 with
  | .error e =>
      (.error e,
        { s with
          shared := { s.shared with db := cleared.2, objects := purged.2 }
          keyed := s.keyed })
  | .ok (documents, knowledgeBases, db) =>
      (.ok ⟨knowledgeBases, documents, cleared.1, purged.1⟩,
        { s with
          shared := { s.shared with db := db, objects := purged.2 }
          keyed := by
            intro d mem
            apply s.keyed
            have rows := s.hardDelete_documents cutoff limit h
            apply List.mem_of_mem_filter (rows ▸ mem) })

/-- The keys of the objects that the pipeline stores for a document: the original, and the cleaned
artifact of every version. -/
def OfDocument (d : Document) (key : ObjectKey) : Prop :=
  key = d.storageKey ∨ ∃ docVersion, key = .cleaned d.storageKey docVersion

/-- A document that was to be purged is gone only if all its objects are. -/
def LeavesNothing : Prop :=
  ∀ d ∈ s.purgeable cutoff limit,
    (∀ d' ∈ (s.purgeForTenant outcome cutoff limit).2.shared.db.documents, d'.id ≠ d.id) →
      ∀ key, OfDocument d key → ¬(s.purgeForTenant outcome cutoff limit).2.Stored key

/-- A knowledge base that the second transaction would delete is still referred to, so that the
database does not let it: by a job of a reindex, or by a chunk of a document of another one. -/
def Blocked : Prop :=
  let ids := (s.purgeable cutoff limit).map (·.id)
  ∃ kb ∈ s.deletedBefore cutoff limit s.shared.db,
    (∀ d ∈ s.shared.db.documents, d.kbId = kb → d.id ∈ ids) ∧
      ((∃ c ∈ s.shared.db.chunks, c.kbId = kb ∧ c.documentId ∉ ids) ∨
        ∃ job ∈ s.shared.db.reindexJobs, job.kbId = kb)

/-- Nothing is stored for the document but its original, and that, if it is stored, can be deleted.
-/
def Discardable (d : Document) : Prop :=
  (∀ docVersion, ¬s.Stored (.cleaned d.storageKey docVersion)) ∧
    (s.Stored d.storageKey → outcome d.storageKey ≠ .refused)

/-! ### What is left -/

variable {s outcome cutoff limit}

theorem mem_purgeable {d : Document} (h : d ∈ s.purgeable cutoff limit) :
  d ∈ s.shared.db.documents
  := by
  have sorted := List.mem_of_mem_take h
  rw [List.mem_insertionSort] at sorted
  apply List.mem_of_mem_filter sorted

/-- The objects that are left: those under other keys, and those whose deletion is refused. -/
theorem mem_purgeObjects {keys : List ObjectKey} {objects : List (ObjectKey × String)}
    {key : ObjectKey} :
  key ∈ (purgeObjects outcome keys objects).2.map (·.1) ↔
    key ∈ objects.map (·.1) ∧ (key ∈ keys → outcome key = .refused)
  := by
  induction keys generalizing objects with
  | nil => simp [purgeObjects]
  | cons first keys ih =>
    unfold purgeObjects
    dsimp only
    rw [ih]
    split
    · case isTrue refused =>
      constructor
      · rintro ⟨stored, others⟩
        refine ⟨stored, fun mem => ?_⟩
        obtain rfl | mem := List.mem_cons.mp mem
        · apply refused
        · apply others mem
      · rintro ⟨stored, all⟩
        exact ⟨stored, fun mem => all (List.mem_cons_of_mem _ mem)⟩
    · case isFalse removed =>
      have left : key ∈ (objects.filter (·.1 ≠ first)).map (·.1) ↔
          key ∈ objects.map (·.1) ∧ key ≠ first := by
        simp only [List.mem_map, List.mem_filter, decide_eq_true_eq]
        constructor
        · rintro ⟨entry, ⟨mem, other⟩, rfl⟩
          exact ⟨⟨entry, mem, rfl⟩, other⟩
        · rintro ⟨⟨entry, mem, rfl⟩, other⟩
          exact ⟨entry, ⟨mem, other⟩, rfl⟩
      rw [left]
      constructor
      · rintro ⟨⟨stored, other⟩, others⟩
        refine ⟨stored, fun mem => ?_⟩
        obtain same | mem := List.mem_cons.mp mem
        · cases other same
        · apply others mem
      · rintro ⟨stored, all⟩
        refine ⟨⟨stored, ?_⟩, fun mem => all (List.mem_cons_of_mem _ mem)⟩
        rintro rfl
        apply removed
        apply all List.mem_cons_self

/-- The tables without the documents and what refers to them. -/
def remaining (s : Archive) (ids : List DocumentId) : Db :=
  { (s.clear ids).2 with documents := s.shared.db.documents.filter (·.id ∉ ids) }

/-- The knowledge bases that are to be deleted and have no other documents. -/
def emptied (s : Archive) (cutoff limit : ℕ) (ids : List DocumentId) : List KbId :=
  (s.deletedBefore cutoff limit s.shared.db).filter fun kb => countAllInKb (s.remaining ids) kb = 0

theorem mem_emptied {ids : List DocumentId} {kb : KbId} :
  kb ∈ s.emptied cutoff limit ids ↔
    kb ∈ s.deletedBefore cutoff limit s.shared.db ∧
      ∀ d ∈ s.shared.db.documents, d.kbId = kb → d.id ∈ ids
  := by
  unfold emptied
  rw [List.mem_filter, decide_eq_true_eq]
  apply and_congr_right
  intro _
  unfold countAllInKb remaining
  rw [List.countP_eq_zero]
  simp only [List.mem_filter, decide_eq_true_eq]
  constructor
  · intro none d mem same
    by_contra other
    apply none d ⟨mem, other⟩ same
  · rintro all d ⟨mem, other⟩ same
    apply other (all d mem same)

/-- The second transaction does not stumble on a document. -/
theorem hardDeleteDocuments_clear (ids : List DocumentId) :
  hardDeleteDocuments ids (s.clear ids).2 =
    .ok (s.shared.db.documents.countP (·.id ∈ ids), s.remaining ids)
  := by
  unfold hardDeleteDocuments
  rw [if_neg]
  · rfl
  · simp only [clear, purgeChunks, purgeEtlJobs, Bool.or_eq_true, List.any_eq_true,
      List.mem_filter, decide_eq_true_eq, Bool.not_eq_true', decide_eq_false_iff_not]
    rintro (⟨c, ⟨-, other⟩, mem⟩ | ⟨job, ⟨-, other⟩, mem⟩)
    · apply other mem
    · apply other mem

theorem hardDelete_clear (ids : List DocumentId) :
  s.hardDelete cutoff limit ids (s.clear ids).2 =
    (hardDeleteKnowledgeBases (s.emptied cutoff limit ids) (s.remaining ids)).map fun deleted =>
      (s.shared.db.documents.countP (·.id ∈ ids), deleted.1, deleted.2)
  := by
  unfold hardDelete
  rw [hardDeleteDocuments_clear]
  change Except.bind (hardDeleteKnowledgeBases (s.emptied cutoff limit ids) (s.remaining ids)) _ = _
  cases hardDeleteKnowledgeBases (s.emptied cutoff limit ids) (s.remaining ids)
  all_goals rfl

/-- The database refuses the second transaction if a knowledge base without documents is referred
to otherwise. -/
theorem protects_iff :
  protects (s.emptied cutoff limit ((s.purgeable cutoff limit).map (·.id)))
    (s.remaining ((s.purgeable cutoff limit).map (·.id))) = true ↔ s.Blocked cutoff limit
  := by
  unfold protects Blocked
  simp only [Bool.or_eq_true, List.any_eq_true, decide_eq_true_eq, mem_emptied]
  constructor
  · rintro ((⟨d, mem, -, all⟩ | ⟨c, mem, old, all⟩) | ⟨job, mem, old, all⟩)
    · obtain ⟨mem, other⟩ := List.mem_filter.mp mem
      cases of_decide_eq_true other (all d mem rfl)
    · obtain ⟨mem, other⟩ := List.mem_filter.mp mem
      have other : c.documentId ∉ (s.purgeable cutoff limit).map (·.id) := by
        simpa using other
      exact ⟨c.kbId, old, all, .inl ⟨c, mem, rfl, other⟩⟩
    · exact ⟨job.kbId, old, all, .inr ⟨job, mem, rfl⟩⟩
  · rintro ⟨kb, old, all, ⟨c, mem, rfl, other⟩ | ⟨job, mem, rfl⟩⟩
    · left
      right
      refine ⟨c, List.mem_filter.mpr ⟨mem, ?_⟩, old, all⟩
      simpa using other
    · right
      exact ⟨job, mem, old, all⟩

/-! ### Documents that are gone -/

/-- If the second transaction raises, no document is gone. -/
theorem purgeForTenant_of_blocked (h : s.Blocked cutoff limit) :
  (s.purgeForTenant outcome cutoff limit).2.shared.db.documents = s.shared.db.documents
  := by
  unfold purgeForTenant
  dsimp only
  split
  · rfl
  · case h_2 heq =>
    rw [hardDelete_clear] at heq
    unfold hardDeleteKnowledgeBases at heq
    rw [if_pos (protects_iff.mpr h)] at heq
    cases heq

theorem purgeForTenant_of_not_blocked (h : ¬s.Blocked cutoff limit) :
  (s.purgeForTenant outcome cutoff limit).2.shared.db.documents =
    s.shared.db.documents.filter (·.id ∉ (s.purgeable cutoff limit).map (·.id))
  := by
  unfold purgeForTenant
  dsimp only
  split
  · case h_1 heq =>
    rw [hardDelete_clear] at heq
    unfold hardDeleteKnowledgeBases at heq
    rw [if_neg (mt protects_iff.mp h)] at heq
    cases heq
  · case h_2 heq =>
    apply hardDelete_documents s cutoff limit heq

theorem stored_purgeForTenant {key : ObjectKey} :
  (s.purgeForTenant outcome cutoff limit).2.Stored key ↔
    s.Stored key ∧
      (key ∈ (s.purgeable cutoff limit).map (·.storageKey) → outcome key = .refused)
  := by
  have objects : (s.purgeForTenant outcome cutoff limit).2.shared.objects =
      (purgeObjects outcome ((s.purgeable cutoff limit).map (·.storageKey))
        s.shared.objects).2 := by
    unfold purgeForTenant
    dsimp only
    split
    all_goals rfl
  unfold Stored
  rw [objects]
  apply mem_purgeObjects

/-- No document has the key of an artifact. -/
theorem cleaned_not_mem (key : ObjectKey) (docVersion : ℕ) :
  .cleaned key docVersion ∉ (s.purgeable cutoff limit).map (·.storageKey)
  := by
  intro mem
  obtain ⟨d, mem, same⟩ := List.mem_map.mp mem
  rw [s.keyed d (mem_purgeable mem)] at same
  cases same

/-- The purge leaves nothing behind exactly if it is rolled back in the end, or if there is nothing
but the originals of the documents and none of them is refused to be deleted. -/
theorem leavesNothing_iff (s : Archive) (outcome : ObjectKey → Deletion) (cutoff limit : ℕ) :
  s.LeavesNothing outcome cutoff limit ↔
    s.Blocked cutoff limit ∨ ∀ d ∈ s.purgeable cutoff limit, s.Discardable outcome d
  := by
  by_cases blocked : s.Blocked cutoff limit
  · apply iff_of_true
    · intro d mem gone
      rw [purgeForTenant_of_blocked blocked] at gone
      cases gone d (mem_purgeable mem) rfl
    · left
      apply blocked
  · rw [or_iff_right blocked]
    apply forall_congr'
    intro d
    apply imp_congr_right
    intro mem
    have gone : ∀ d' ∈ (s.purgeForTenant outcome cutoff limit).2.shared.db.documents,
        d'.id ≠ d.id := by
      rw [purgeForTenant_of_not_blocked blocked]
      intro d' mem' same
      have other := (List.mem_filter.mp mem').2
      rw [same] at other
      apply of_decide_eq_true other (List.mem_map.mpr ⟨d, mem, rfl⟩)
    constructor
    · intro h
      constructor
      · intro docVersion stored
        apply h gone _ (.inr ⟨docVersion, rfl⟩)
        rw [stored_purgeForTenant]
        exact ⟨stored, fun mem' => (cleaned_not_mem _ _ mem').elim⟩
      · intro stored refused
        apply h gone _ (.inl rfl)
        rw [stored_purgeForTenant]
        exact ⟨stored, fun _ => refused⟩
    · rintro ⟨noArtifact, original⟩ - key ofDocument stored
      obtain ⟨stored, refused⟩ := stored_purgeForTenant.mp stored
      obtain rfl | ⟨docVersion, rfl⟩ := ofDocument
      · apply original stored
        apply refused (List.mem_map.mpr ⟨d, mem, rfl⟩)
      · apply noArtifact docVersion stored

/-- A document that has been ingested once and then deleted. -/
def deletedRow : Document where
  id := 1
  kbId := 1
  mimeType := "text/plain"
  storageKey := .document 1 1
  contentHash := "hash"
  status := .ready
  updatedAt := 0
  deletedAt := some 0

/-- The document and its two objects. -/
def deletedDocument : Archive where
  shared :=
    { db :=
        { knowledgeBases := [{ id := 1 }]
          documents := [deletedRow] }
      objects := [(.cleaned (.document 1 1) 1, "[]"), (.document 1 1, "text")] }
  kbDeletedAt := fun _ => none
  createdAt := fun _ => 0
  keyed := by
    intro d mem
    rw [List.mem_singleton.mp mem]
    rfl

/-- Without any failure, the artifact stays when the row is gone. -/
theorem not_leavesNothing_deletedDocument :
  ¬deletedDocument.LeavesNothing (fun _ => .done) 30 500
  := by
  intro h
  have selected : deletedRow ∈ deletedDocument.purgeable 30 500 := by decide
  have free : ¬deletedDocument.Blocked 30 500 := by
    rintro ⟨kb, -, -, ⟨c, mem, -⟩ | ⟨job, mem, -⟩⟩
    · cases mem
    · cases mem
  apply h deletedRow selected _ (.cleaned (.document 1 1) 1) (.inr ⟨1, rfl⟩)
  · rw [stored_purgeForTenant]
    exact ⟨List.mem_cons_self, fun mem => (cleaned_not_mem _ _ mem).elim⟩
  · rw [purgeForTenant_of_not_blocked free]
    decide

end Archive

end Lumina.Knowledge
