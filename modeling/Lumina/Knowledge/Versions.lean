import Lumina.Knowledge.WellFormed

/-!
# What retrieval may see of a document

Retrieval looks at the chunks that are not superseded, and at nothing else of a document.  A
reingest and a deletion supersede all chunks of their document; the write of a chunk stage goes
to the version of its snapshot and asks nothing.  So the active chunks of a document are those
of its current version, and a deleted document has none, exactly as long as the chunk stages
that commit some chunks have a current snapshot and a document that is still there.

Both are one argument, for a relation `R` between a document and the versions of its active
chunks.
-/

namespace Lumina.Knowledge

open Transition

variable {now : ℕ} {db db' : Db} {t : Tx} {R : Document → ℕ → Prop}

/-- The active chunks of every document are of versions that `R` admits. -/
def ActiveChunks (R : Document → ℕ → Prop) (db : Db) : Prop :=
  ∀ d ∈ db.documents, ∀ c ∈ db.chunks, c.documentId = d.id → c.superseded = false →
    R d c.docVersion

/-- If the transaction writes chunks, their version is one that `R` admits for the document. -/
def WritesAdmitted (R : Document → ℕ → Prop) (db : Db) (t : Tx) : Prop :=
  ∀ document kb docVersion rows, t = .replaceForVersion document kb docVersion rows → rows ≠ [] →
    ∀ d ∈ db.documents, d.id = document → R d docVersion

theorem writesAdmitted_of_ne
    (h : ∀ document kb docVersion rows, t ≠ .replaceForVersion document kb docVersion rows) :
  WritesAdmitted R db t
  := by
  intro document kb docVersion rows ht
  exact absurd ht (h document kb docVersion rows)

/-! ### One transaction -/

namespace ActiveChunks

/-- Embeddings and knowledge bases do not matter. -/
theorem of_data (h : ActiveChunks R db) {embeddings : List Embedding}
    {knowledgeBases : List KnowledgeBase}
    (data : db'.data =
      { db.data with
        embeddings := embeddings
        knowledgeBases := knowledgeBases }) :
  ActiveChunks R db'
  := by
  have documents : db'.documents = db.documents := (congrArg Db.documents data :)
  have chunks : db'.chunks = db.chunks := (congrArg Db.chunks data :)
  unfold ActiveChunks
  rw [documents, chunks]
  apply h

/-- Updating what `R` does not depend on changes nothing. -/
theorem update_documents (h : ActiveChunks R db) {p : Document → Bool} {f : Document → Document}
    (hid : ∀ d, (f d).id = d.id) (hR : ∀ d docVersion, R d docVersion → R (f d) docVersion) :
  ActiveChunks R { db with documents := Table.update p f db.documents }
  := by
  intro d hd c hc hcd hactive
  obtain ⟨old, hold, rfl⟩ := Table.mem_update.mp hd
  have holds := h old hold c hc
  split at hcd
  next hp =>
    rw [hid] at hcd
    rw [if_pos hp]
    apply hR
    apply holds hcd hactive
  next hp =>
    rw [if_neg hp]
    apply holds hcd hactive

/-- A document whose chunks are superseded may be updated in any way that keeps its id: a new
version, or the deletion. -/
theorem supersede (h : ActiveChunks R db) {document : DocumentId} {f : Document → Document}
    (hid : ∀ d, (f d).id = d.id) :
  ActiveChunks R
    { ChunkRepository.supersedeForDocument document db with
      documents := Table.update (fun d => d.visible && d.id = document) f db.documents }
  := by
  intro d hd c hc hcd hactive
  obtain ⟨old, hold, rfl⟩ := Table.mem_update.mp hd
  split at hcd
  next hp =>
    rw [Bool.and_eq_true, decide_eq_true_eq] at hp
    rw [hid] at hcd
    have superseded := superseded_of_document hc (hcd.trans hp.2)
    rw [superseded] at hactive
    cases hactive
  next hp =>
    rw [if_neg hp]
    apply h old hold c (mem_of_active_supersede hc hactive) hcd hactive

/-- A new document has no chunks. -/
theorem create (h : ActiveChunks R db) (hwf : WellFormed db) {d : Document}
    (fresh : ∀ old ∈ db.documents, old.id ≠ d.id) :
  ActiveChunks R { db with documents := db.documents ++ [d] }
  := by
  intro d' hd' c hc hcd hactive
  obtain hd' | hd' := List.mem_append.mp hd'
  · apply h d' hd' c hc hcd hactive
  · rw [List.mem_singleton] at hd'
    obtain ⟨old, hold, hid⟩ := hwf.chunkDocument c hc
    rw [hd'] at hcd
    exact absurd (hid.trans hcd) (fresh old hold)

end ActiveChunks

/-- Writing the chunks of a version keeps the property exactly if the version is admitted. -/
theorem activeChunks_replace (h : ActiveChunks R db) {document : DocumentId} {kb : KbId}
    {docVersion : ℕ} {rows : List ChunkRow} :
  ActiveChunks R
      { db with
        chunks := db.chunks.filter (fun c => !ChunkRepository.ofVersion document docVersion c) ++
          ChunkRepository.newChunks document kb docVersion db.nextChunk rows
        nextChunk := db.nextChunk + rows.length
        committed := (document, docVersion) :: db.committed } ↔
    (rows ≠ [] → ∀ d ∈ db.documents, d.id = document → R d docVersion)
  := by
  constructor
  · intro hafter hrows d hd hid
    obtain ⟨c, hc⟩ := newChunks_ne_nil document kb docVersion db.nextChunk hrows
    obtain ⟨hdoc, -, hversion, hactive⟩ := mem_newChunks hc
    rw [← hversion]
    apply hafter d hd c (List.mem_append_right _ hc) (hdoc.trans hid.symm) hactive
  · intro hadmitted d hd c hc hcd hactive
    obtain hc | hc := List.mem_append.mp hc
    · apply h d hd c (List.mem_of_mem_filter hc) hcd hactive
    · obtain ⟨hdoc, -, hversion, -⟩ := mem_newChunks hc
      have hrows : rows ≠ [] := by
        rintro rfl
        cases hc
      rw [hversion]
      apply hadmitted hrows d hd (hcd.symm.trans hdoc)

/-- The transactions that keep the property are those that write admitted chunks, if any. -/
theorem effect_activeChunks
    (hR : ∀ (u : StatusUpdate) now d docVersion, R d docVersion → R (u.write now d) docVersion)
    (hwf : WellFormed db) (h : ActiveChunks R db) (he : Effect now db t db') :
  ActiveChunks R db' ↔ WritesAdmitted R db t
  := by
  cases he with
  | replace free keys =>
    rw [activeChunks_replace h]
    constructor
    · intro hadmitted _ _ _ _ ht
      cases ht
      apply hadmitted
    · intro hwrites
      apply hwrites _ _ _ _ rfl
  | plain plain data =>
    refine iff_of_true (h.of_data data) ?_
    rintro _ _ _ _ rfl
    cases plain
  | upsert writes exist distinct data =>
    refine iff_of_true (h.of_data data) ?_
    rintro _ _ _ _ rfl
    obtain writes | ⟨_, _, writes, -⟩ := writes
    all_goals cases writes
  | stay incomplete data =>
    refine iff_of_true (h.of_data data) (writesAdmitted_of_ne nofun)
  | switch complete data =>
    refine iff_of_true (h.of_data data) (writesAdmitted_of_ne nofun)
  | setStatus u =>
    refine iff_of_true ?_ (writesAdmitted_of_ne nofun)
    apply h.update_documents (p := u.hits) (f := u.write now) (fun _ => rfl)
    apply hR
  | create fresh key =>
    refine iff_of_true ?_ (writesAdmitted_of_ne nofun)
    apply h.create hwf fresh
  | reingest found free =>
    refine iff_of_true ?_ (writesAdmitted_of_ne nofun)
    apply h.supersede
      (f := fun d => { d with docVersion := _, status := .uploaded, error := none, updatedAt := _ })
    exact fun _ => rfl
  | delete found =>
    refine iff_of_true ?_ (writesAdmitted_of_ne nofun)
    apply h.supersede (f := fun d => { d with deletedAt := some now })
    exact fun _ => rfl

/-- In a run, the active chunks are admitted in all states exactly if all chunk stages that
commit some chunks write admitted ones. -/
theorem activeChunks_iff
    (hR : ∀ (u : StatusUpdate) now d docVersion, R d docVersion → R (u.write now d) docVersion)
    {cfg : Settings} {h : List (World × Action)} {w : World} (run : (system cfg).Run h w) :
  (∀ u ∈ Machine.states h w, ActiveChunks R u.shared.db) ↔
    ∀ x ∈ h, ∀ t db, Commits cfg x.1 x.2 t db → WritesAdmitted R x.1.shared.db t
  := by
  apply forall_states_iff_commits _ _ run
  · rintro _ ⟨knowledgeBases, -, rfl⟩ d hd
    cases hd
  · intro now db t db' hwf hdb he
    apply effect_activeChunks hR hwf hdb he

/-! ### One active version -/

/-- The active chunks of every document are of its current version. -/
def OneActiveVersion : Db → Prop :=
  ActiveChunks fun d docVersion => docVersion = d.docVersion

instance : DecidablePred OneActiveVersion := fun db => by
  unfold OneActiveVersion ActiveChunks
  infer_instance

/-- If the transaction writes chunks, they are of the current version of their document. -/
def WritesCurrent : Db → Tx → Prop :=
  WritesAdmitted fun d docVersion => docVersion = d.docVersion

/-- In a run, the active chunks of every document are of its current version in all states,
exactly if every chunk stage that commits some chunks commits them for the current version. -/
theorem oneActiveVersion_iff {cfg : Settings} {h : List (World × Action)} {w : World}
    (run : (system cfg).Run h w) :
  (∀ u ∈ Machine.states h w, OneActiveVersion u.shared.db) ↔
    ∀ x ∈ h, ∀ t db, Commits cfg x.1 x.2 t db → WritesCurrent x.1.shared.db t
  := by
  apply activeChunks_iff _ run
  intro u now d docVersion h
  apply h

/-- An ingestion that has read its target before the document is reingested. -/
def reingestMidParse : List Action :=
  uploadSample "a" ++ .deliver 0 0 :: works 0 2 ++ requests 1 3 (.reingest 7) ++ works 0 12

/-- A document is uploaded and ingested. -/
def ingestSample : List Action :=
  uploadSample "a" ++ .deliver 0 0 :: works 0 18 ++ [.finish 0]

theorem oneActiveVersion_iff_ingestSample :
  ∃ h w, (system sampleSettings).Run h w ∧ w.shared.db.chunks.length = 1 ∧
    ((∀ u ∈ Machine.states h w, OneActiveVersion u.shared.db) ↔
      ∀ x ∈ h, ∀ t db, Commits sampleSettings x.1 x.2 t db → WritesCurrent x.1.shared.db t)
  := by
  obtain ⟨h, w, run, hw⟩ := Machine.exists_run_of_exec (M := system sampleSettings)
    ingestSample (fun w => decide (w.shared.db.chunks.length = 1)) sampleWorld_initial (by decide)
  exact ⟨h, w, run, of_decide_eq_true hw, oneActiveVersion_iff run⟩

/-- The chunks of the first version become active after the reingest to the second one. -/
theorem not_oneActiveVersion_reingestMidParse :
  ¬∀ h w, (system sampleSettings).Run h w → OneActiveVersion w.shared.db
  := by
  obtain ⟨h, w, run, hw⟩ := Machine.exists_run_of_exec (M := system sampleSettings)
    reingestMidParse (fun w => decide (¬OneActiveVersion w.shared.db)) sampleWorld_initial (by decide)
  intro claim
  exact of_decide_eq_true hw (claim h w run)

/-! ### Deleted documents -/

/-- A document with an active chunk is not deleted. -/
def DeletedStayOut : Db → Prop :=
  ActiveChunks fun d _ => d.visible = true

instance : DecidablePred DeletedStayOut := fun db => by
  unfold DeletedStayOut ActiveChunks
  infer_instance

/-- If the transaction writes chunks, their document is not deleted. -/
def WritesVisible : Db → Tx → Prop :=
  WritesAdmitted fun d _ => d.visible = true

/-- In a run, no deleted document has an active chunk in any state, exactly if no chunk stage
commits some chunks for a document that is deleted by then. -/
theorem deletedStayOut_iff {cfg : Settings} {h : List (World × Action)} {w : World}
    (run : (system cfg).Run h w) :
  (∀ u ∈ Machine.states h w, DeletedStayOut u.shared.db) ↔
    ∀ x ∈ h, ∀ t db, Commits cfg x.1 x.2 t db → WritesVisible x.1.shared.db t
  := by
  apply activeChunks_iff _ run
  intro u now d docVersion h
  apply h

/-- An ingestion that has read its target before the document is deleted. -/
def deleteMidParse : List Action :=
  uploadSample "a" ++ .deliver 0 0 :: works 0 2 ++ requests 1 1 (.delete 7) ++ works 0 12

/-- A document is uploaded, ingested and deleted. -/
def deleteSample : List Action :=
  ingestSample ++ requests 0 1 (.delete 7)

theorem deletedStayOut_iff_deleteSample :
  ∃ h w, (system sampleSettings).Run h w ∧ w.shared.db.chunks.all (·.superseded) = true ∧
    ((∀ u ∈ Machine.states h w, DeletedStayOut u.shared.db) ↔
      ∀ x ∈ h, ∀ t db, Commits sampleSettings x.1 x.2 t db → WritesVisible x.1.shared.db t)
  := by
  obtain ⟨h, w, run, hw⟩ := Machine.exists_run_of_exec (M := system sampleSettings)
    deleteSample (fun w => w.shared.db.chunks.all (·.superseded)) sampleWorld_initial (by decide)
  exact ⟨h, w, run, hw, deletedStayOut_iff run⟩

/-- The chunks of a deleted document are inserted as active ones. -/
theorem not_deletedStayOut_deleteMidParse :
  ¬∀ h w, (system sampleSettings).Run h w → DeletedStayOut w.shared.db
  := by
  obtain ⟨h, w, run, hw⟩ := Machine.exists_run_of_exec (M := system sampleSettings)
    deleteMidParse (fun w => decide (¬DeletedStayOut w.shared.db)) sampleWorld_initial (by decide)
  intro claim
  exact of_decide_eq_true hw (claim h w run)

end Lumina.Knowledge
