import Lumina.Knowledge.WellFormed

/-!
# What only grows

No transaction removes a document or changes what it has been created with, no version of a
document goes down, and no chunk stage that has been committed is undone.
-/

namespace Lumina.Knowledge

/-- A later row of the same document. -/
structure Document.Grows (d d' : Document) : Prop where
  id : d'.id = d.id
  kbId : d'.kbId = d.kbId
  mimeType : d'.mimeType = d.mimeType
  storageKey : d'.storageKey = d.storageKey
  docVersion : d.docVersion ≤ d'.docVersion
  visible : d'.visible → d.visible

theorem Document.Grows.refl (d : Document) : d.Grows d :=
  ⟨rfl, rfl, rfl, rfl, le_refl _, fun h => h⟩

theorem Document.Grows.trans {d d' d'' : Document} (h : d.Grows d') (h' : d'.Grows d'') :
  d.Grows d''
  := by
  constructor
  · apply h'.id.trans h.id
  · apply h'.kbId.trans h.kbId
  · apply h'.mimeType.trans h.mimeType
  · apply h'.storageKey.trans h.storageKey
  · apply le_trans h.docVersion h'.docVersion
  · intro hvisible
    apply h.visible (h'.visible hvisible)

/-- A later database. -/
structure Grows (db db' : Db) : Prop where
  documents : ∀ d ∈ db.documents, ∃ d' ∈ db'.documents, d.Grows d'
  config : ∀ id, (KnowledgeBaseRepository.getById db' id).map (·.config) =
    (KnowledgeBaseRepository.getById db id).map (·.config)
  committed : ∀ x ∈ db.committed, x ∈ db'.committed

namespace Grows

variable {now : ℕ} {db db' db'' : Db} {t : Tx}

theorem refl (db : Db) : Grows db db :=
  ⟨fun d hd => ⟨d, hd, .refl d⟩, fun _ => rfl, fun _ hx => hx⟩

theorem trans (h : Grows db db') (h' : Grows db' db'') : Grows db db'' := by
  constructor
  · intro d hd
    obtain ⟨d', hd', grows⟩ := h.documents d hd
    obtain ⟨d'', hd'', grows'⟩ := h'.documents d' hd'
    exact ⟨d'', hd'', grows.trans grows'⟩
  · intro id
    rw [h'.config, h.config]
  · intro x hx
    apply h'.committed x (h.committed x hx)

/-- Embeddings do not matter. -/
theorem of_data {embeddings : List Embedding}
    (data : db'.data =
      { db.data with
        embeddings := embeddings }) :
  Grows db db'
  := by
  have documents : db'.documents = db.documents := (congrArg Db.documents data :)
  have committed : db'.committed = db.committed := (congrArg Db.committed data :)
  constructor
  · intro d hd
    exact ⟨d, documents ▸ hd, .refl d⟩
  · intro id
    have rows : db'.knowledgeBases = db.knowledgeBases := (congrArg Db.knowledgeBases data :)
    unfold KnowledgeBaseRepository.getById
    rw [rows]
  · intro x hx
    rw [committed]
    apply hx

/-- Updated documents. -/
theorem update {p : Document → Bool} {f : Document → Document}
    (documents : db'.documents = Table.update p f db.documents)
    (knowledgeBases : db'.knowledgeBases = db.knowledgeBases)
    (committed : db'.committed = db.committed)
    (hf : ∀ d ∈ db.documents, p d → d.Grows (f d)) :
  Grows db db'
  := by
  constructor
  · intro d hd
    refine ⟨if p d then f d else d, ?_, ?_⟩
    · rw [documents, Table.mem_update]
      use d
    · split
      next hp => apply hf d hd hp
      next => apply Document.Grows.refl
  · intro id
    unfold KnowledgeBaseRepository.getById
    rw [knowledgeBases]
  · intro x hx
    rw [committed]
    apply hx

/-- A switch leaves the settings of the knowledge bases alone. -/
theorem switch {p : KnowledgeBase → Bool} {f : KnowledgeBase → KnowledgeBase}
    (data : db'.data =
      { db.data with
        knowledgeBases := Table.update p f db.knowledgeBases })
    (hid : ∀ kb, (f kb).id = kb.id) (hconfig : ∀ kb, (f kb).config = kb.config) :
  Grows db db'
  := by
  have documents : db'.documents = db.documents := (congrArg Db.documents data :)
  have committed : db'.committed = db.committed := (congrArg Db.committed data :)
  constructor
  · intro d hd
    exact ⟨d, documents ▸ hd, .refl d⟩
  · intro id
    have rows : db'.knowledgeBases = _ := (congrArg Db.knowledgeBases data :)
    unfold KnowledgeBaseRepository.getById
    rw [rows, Table.find?_update, Option.map_map]
    · congr 1
      funext kb
      rw [Function.comp_apply]
      split
      · apply hconfig
      · rfl
    · intro kb
      rw [hid]
  · intro x hx
    rw [committed]
    apply hx

end Grows

/-- Every committed transaction leads to a later database. -/
theorem effect_grows {now : ℕ} {db db' : Db} {t : Tx} (h : WellFormed db)
    (he : Effect now db t db') :
  Grows db db'
  := by
  cases he with
  | plain _ data => apply Grows.of_data data
  | stay _ data => apply Grows.of_data data
  | upsert writes exist distinct data => apply Grows.of_data data
  | switch complete data =>
    apply Grows.switch data
    · exact fun _ => rfl
    · exact fun _ => rfl
  | replace free keys =>
    constructor
    · exact fun d hd => ⟨d, hd, .refl d⟩
    · exact fun _ => rfl
    · exact fun x hx => List.mem_cons_of_mem _ hx
  | create fresh key =>
    constructor
    · exact fun d hd => ⟨d, List.mem_append_left _ hd, .refl d⟩
    · exact fun _ => rfl
    · exact fun _ hx => hx
  | setStatus u =>
    apply Grows.update (p := u.hits) (f := u.write now)
    · rfl
    · rfl
    · rfl
    · exact fun d _ _ => ⟨rfl, rfl, rfl, rfl, le_refl _, fun h => h⟩
  | @reingest document staleBefore found hfound free =>
    apply Grows.update
    · rfl
    · rfl
    · rfl
    · intro d hd hp
      refine ⟨rfl, rfl, rfl, rfl, ?_, fun h => h⟩
      rw [h.eq_of_found hfound hd hp]
      apply Nat.le_succ
  | delete found =>
    apply Grows.update
    · rfl
    · rfl
    · rfl
    · intro d _ _
      refine ⟨rfl, rfl, rfl, rfl, le_refl _, ?_⟩
      intro hvisible
      cases hvisible

end Lumina.Knowledge
