import Lumina.Knowledge.System

/-!
# Histories of uploads and deletes

Any number of uploads and deletes run at the same time, operation by operation.  An upload is
refused if there is a row with its content in the knowledge base, deleted or not: the query before
the upload passes over the deleted rows, and the unique constraint does not.

Beside each call stands, for the proofs, what it has met: the database as its last
transaction has found it, and whether the infrastructure has failed it.
-/

namespace Lumina.Knowledge.Uploads

open Interleaving Transition

inductive Call where
  | upload (kb : KbId) (id : DocumentId) (content mediaType : String)
  | delete (document : DocumentId)
deriving DecidableEq, Repr

def Call.code (cfg : Settings) : Call → Prog Unit
  | .upload kb id content mediaType => DocumentService.upload cfg kb id content mediaType
  | .delete document => DocumentService.delete document

/-- The document that a call makes. -/
def Call.makes : Call → Option DocumentId
  | .upload _ id _ _ => some id
  | .delete _ => none

/-- The key under which a call stores an object. -/
def Call.storageKey : Call → Option ObjectKey
  | .upload kb id _ _ => some (buildDocumentKey kb id)
  | .delete _ => none

/-- A ghost: what a call has met. -/
structure Met where
  found : Option Db := none
  disturbed : Bool := false
  undiscarded : Bool := false

/-- What an operation with its answer leaves there. -/
def Met.note (met : Met) (s : Shared) : Op → Answer → Met
  | .tx _, .done => { met with found := some s.db }
  | .deleteObject _, .raised _ => { met with undiscarded := true }
  | _, .raised _ => { met with disturbed := true }
  | _, _ => met

structure Session where
  call : Call
  met : Met := {}
  code : Prog Unit

structure World where
  shared : Shared := {}
  sessions : List Session := []

inductive Action where
  | start (call : Call)
  /-- The next operation of a session. -/
  | work (i : ℕ) (answer : Answer)
  | tick (seconds : ℕ)
deriving DecidableEq, Repr

/-- The step of one action, if it is possible.  The id of a new document is a fresh one. -/
def step (cfg : Settings) : Action → World → Option World
  | .start call, w =>
    if ∀ id, call.makes = some id → ∀ session ∈ w.sessions, session.call.makes ≠ some id then
      some { w with sessions := w.sessions ++ [{ call := call, code := call.code cfg }] }
    else
      none
  | .work i answer, w => do
    let session ← w.sessions[i]?
    match session.code with
    | .call op next => do
      let (reply, shared) ← w.shared.perform cfg none op answer
      some
        { shared := shared
          sessions := w.sessions.set i
            { session with met := session.met.note w.shared op answer, code := next reply } }
    | _ => none
  | .tick seconds, w =>
    some { w with shared := { w.shared with now := w.shared.now + seconds } }

/-- Nothing has been uploaded yet; there are some knowledge bases. -/
def uploads (cfg : Settings) : Machine World Action where
  init w := w.sessions = [] ∧ w.shared.db.documents = [] ∧ w.shared.objects = []
  step := step cfg

/-! ### The rows of a content -/

section Rows

variable {db db' : Db} {kb : KbId} {contentHash : String}

/-- The knowledge base has a row with this content. -/
def Taken (db : Db) (kb : KbId) (contentHash : String) : Prop :=
  ∃ d ∈ db.documents, d.kbId = kb ∧ d.contentHash = contentHash

/-- The knowledge base has a document with this content. -/
def Live (db : Db) (kb : KbId) (contentHash : String) : Prop :=
  ∃ d ∈ db.documents, (d.kbId = kb ∧ d.contentHash = contentHash) ∧ d.visible = true

instance : Decidable (Taken db kb contentHash) :=
  inferInstanceAs (Decidable (∃ d ∈ db.documents, d.kbId = kb ∧ d.contentHash = contentHash))

instance : Decidable (Live db kb contentHash) :=
  inferInstanceAs (Decidable (∃ d ∈ db.documents, (d.kbId = kb ∧ d.contentHash = contentHash) ∧
    d.visible = true))

/-- `uq_document_tenant_kb_hash` -/
def Unique (db : Db) : Prop :=
  ∀ d ∈ db.documents, ∀ d' ∈ db.documents, d.kbId = d'.kbId → d.contentHash = d'.contentHash →
    d = d'

/-- The query and the constraint agree just if no deleted row has the content. -/
theorem taken_iff_live (unique : Unique db) :
  (Taken db kb contentHash ↔ Live db kb contentHash) ↔
    ∀ d ∈ db.documents, d.kbId = kb → d.contentHash = contentHash → d.visible = true
  := by
  constructor
  · rintro agree d hd rfl rfl
    obtain ⟨d', hd', ⟨hkb, hhash⟩, visible⟩ := agree.mp ⟨d, hd, rfl, rfl⟩
    rw [unique d hd d' hd' hkb.symm hhash.symm]
    exact visible
  · intro visible
    constructor
    · rintro ⟨d, hd, hkb, hhash⟩
      exact ⟨d, hd, ⟨hkb, hhash⟩, visible d hd hkb hhash⟩
    · rintro ⟨d, hd, same, -⟩
      exact ⟨d, hd, same⟩

/-- A row with a new content. -/
theorem unique_append {d : Document} (unique : Unique db)
    (free : ¬Taken db d.kbId d.contentHash) (documents : db'.documents = db.documents ++ [d]) :
  Unique db'
  := by
  have other : ∀ a ∈ db.documents, a.kbId = d.kbId → a.contentHash ≠ d.contentHash :=
    fun a ha hkb hhash => free ⟨a, ha, hkb, hhash⟩
  intro a ha b hb hkb hhash
  rw [documents, List.mem_append, List.mem_singleton] at ha hb
  obtain ha | rfl := ha
  · obtain hb | rfl := hb
    · exact unique a ha b hb hkb hhash
    · exact absurd hhash (other a ha hkb)
  · obtain hb | rfl := hb
    · exact absurd hhash.symm (other b hb hkb.symm)
    · rfl

/-- A row is only changed beside its key. -/
structure Updated (db db' : Db) : Prop where
  old : ∀ d' ∈ db'.documents, ∃ d ∈ db.documents,
    d'.id = d.id ∧ d'.kbId = d.kbId ∧ d'.contentHash = d.contentHash
  new : ∀ d ∈ db.documents, ∃ d' ∈ db'.documents, d'.id = d.id
  unique : Unique db → Unique db'
  knowledgeBases : db'.knowledgeBases = db.knowledgeBases

theorem updated_of_update {p : Document → Bool} {f : Document → Document}
    (keeps : ∀ d, (f d).id = d.id ∧ (f d).kbId = d.kbId ∧ (f d).contentHash = d.contentHash)
    (documents : db'.documents = Table.update p f db.documents)
    (knowledgeBases : db'.knowledgeBases = db.knowledgeBases) :
  Updated db db'
  := by
  have same : ∀ d, (if p d then f d else d).id = d.id ∧ (if p d then f d else d).kbId = d.kbId ∧
      (if p d then f d else d).contentHash = d.contentHash := by
    intro d
    split
    · exact keeps d
    · exact ⟨rfl, rfl, rfl⟩
  constructor
  · intro d' hd'
    rw [documents] at hd'
    obtain ⟨d, hd, rfl⟩ := Table.mem_update.mp hd'
    exact ⟨d, hd, same d⟩
  · intro d hd
    rw [documents]
    exact ⟨_, Table.mem_update.mpr ⟨d, hd, rfl⟩, (same d).1⟩
  · intro unique a ha b hb hkb hhash
    rw [documents] at ha hb
    obtain ⟨a', ha', rfl⟩ := Table.mem_update.mp ha
    obtain ⟨b', hb', rfl⟩ := Table.mem_update.mp hb
    rw [(same a').2.1, (same b').2.1] at hkb
    rw [(same a').2.2, (same b').2.2] at hhash
    rw [unique a' ha' b' hb' hkb hhash]
  · exact knowledgeBases

end Rows

/-! ### The transactions -/

section Transactions

variable {cfg : Settings} {now : ℕ} {db : Db} {kb : KbId} {id : DocumentId}
  {contentHash mediaType : String}

/-- `ConflictError` of an upload. -/
def duplicate : Exn := .conflict "這份文件已經在這個知識庫裡"

theorem findByContentHash_isSome :
  (DocumentRepository.findByContentHash db kb contentHash).isSome = true ↔ Live db kb contentHash
  := by
  unfold DocumentRepository.findByContentHash DocumentRepository.queryset
  rw [List.find?_isSome]
  constructor
  · rintro ⟨d, hd, h⟩
    obtain ⟨hmem, visible⟩ := List.mem_filter.mp hd
    rw [Bool.and_eq_true, decide_eq_true_eq, decide_eq_true_eq] at h
    exact ⟨d, hmem, h, visible⟩
  · rintro ⟨d, hd, h, visible⟩
    refine ⟨d, List.mem_filter.mpr ⟨hd, visible⟩, ?_⟩
    rw [Bool.and_eq_true, decide_eq_true_eq, decide_eq_true_eq]
    exact h

/-- The checks of an upload. -/
theorem checkUpload_cases (cfg : Settings) (now : ℕ) (db : Db) (kb : KbId) (contentHash : String) :
  (transact cfg now (.checkUpload kb contentHash) db = .ok ((), db) ∧
      (∃ row ∈ db.knowledgeBases, row.id = kb) ∧ ¬Live db kb contentHash) ∨
    (transact cfg now (.checkUpload kb contentHash) db = .error duplicate ∧
      Live db kb contentHash) ∨
    (transact cfg now (.checkUpload kb contentHash) db = .error (.notFound "知識庫不存在") ∧
      ¬∃ row ∈ db.knowledgeBases, row.id = kb)
  := by
  have reads : transact cfg now (.checkUpload kb contentHash) db =
      (checkUpload db kb contentHash).map fun u => (u, db) := by
    cases h : checkUpload db kb contentHash with
    | ok u =>
      change (do return (← checkUpload db kb contentHash, db) : Except Exn (Unit × Db)) = _
      rw [h]
      rfl
    | error e =>
      change (do return (← checkUpload db kb contentHash, db) : Except Exn (Unit × Db)) = _
      rw [h]
      rfl
  rw [reads]
  unfold checkUpload requireKnowledgeBase KnowledgeBaseRepository.getById
  cases hkb : db.knowledgeBases.find? (·.id = kb) with
  | none =>
    right
    right
    refine ⟨rfl, ?_⟩
    rintro ⟨row, hrow, hid⟩
    exact List.find?_eq_none.mp hkb row hrow (decide_eq_true hid)
  | some row =>
    by_cases live : Live db kb contentHash
    · right
      left
      refine ⟨?_, live⟩
      have found := findByContentHash_isSome.mpr live
      change Except.map _ (if _ then _ else _) = _
      rw [if_pos found]
      rfl
    · left
      refine ⟨?_, ⟨row, List.mem_of_find?_eq_some hkb, ?_⟩, live⟩
      · have absent : ¬(DocumentRepository.findByContentHash db kb contentHash).isSome = true :=
          fun h => live (findByContentHash_isSome.mp h)
        change Except.map _ (if _ then _ else _) = _
        rw [if_neg absent]
        rfl
      · have hid := List.find?_some hkb
        exact of_decide_eq_true hid

theorem createDocument_cases (cfg : Settings) (now : ℕ) (mediaType contentHash : String)
    (known : ∃ row ∈ db.knowledgeBases, row.id = kb) (fresh : ∀ d ∈ db.documents, d.id ≠ id) :
  (∃ d : Document, d.id = id ∧ d.kbId = kb ∧ d.contentHash = contentHash ∧
      transact cfg now (.createDocument id kb mediaType contentHash) db =
        .ok ((), { db with documents := db.documents ++ [d] }) ∧ ¬Taken db kb contentHash) ∨
    (transact cfg now (.createDocument id kb mediaType contentHash) db =
      .error (.integrity "IntegrityError") ∧ Taken db kb contentHash)
  := by
  let row : Document :=
    { id := id
      kbId := kb
      mimeType := mediaType
      storageKey := buildDocumentKey kb id
      contentHash := contentHash
      updatedAt := now }
  have writes : transact cfg now (.createDocument id kb mediaType contentHash) db =
      (DocumentRepository.create row db).map fun db => ((), db) := by
    change (do return ((), ← DocumentRepository.create row db) : Except Exn (Unit × Db)) = _
    cases DocumentRepository.create row db
    all_goals rfl
  have clash : (db.documents.any fun old => decide (old.id = row.id) ||
      (decide (old.kbId = row.kbId) && decide (old.contentHash = row.contentHash))) = true ↔
        Taken db kb contentHash := by
    rw [List.any_eq_true]
    constructor
    · rintro ⟨d, hd, h⟩
      rw [Bool.or_eq_true, Bool.and_eq_true, decide_eq_true_eq, decide_eq_true_eq,
        decide_eq_true_eq] at h
      exact ⟨d, hd, h.resolve_left (fresh d hd)⟩
    · rintro ⟨d, hd, h⟩
      refine ⟨d, hd, ?_⟩
      rw [Bool.or_eq_true, Bool.and_eq_true, decide_eq_true_eq, decide_eq_true_eq,
        decide_eq_true_eq]
      exact Or.inr h
  have hasKb : ¬(db.knowledgeBases.any (·.id = row.kbId) = false) := by
    rw [Bool.not_eq_false, List.any_eq_true]
    obtain ⟨kbRow, hrow, hid⟩ := known
    exact ⟨kbRow, hrow, decide_eq_true hid⟩
  rw [writes]
  unfold DocumentRepository.create
  by_cases taken : Taken db kb contentHash
  · right
    refine ⟨?_, taken⟩
    rw [if_pos (clash.mpr taken)]
    rfl
  · left
    refine ⟨row, rfl, rfl, rfl, ?_, taken⟩
    rw [if_neg fun h => taken (clash.mp h), if_neg hasKb]
    rfl

theorem delete_updated {document : DocumentId} {db' : Db}
    (h : transact cfg now (.delete document) db = .ok ((), db')) :
  Updated db db'
  := by
  have writes : (do return ((), ← deleteDocument now db document) : Except Exn (Unit × Db)) =
      .ok ((), db') := h
  unfold deleteDocument requireDocument at writes
  cases hfound : DocumentRepository.getById db document with
  | none =>
    rw [hfound] at writes
    cases writes
  | some d =>
    rw [hfound] at writes
    cases writes
    have documents : (DocumentRepository.softDelete now document
        (ChunkRepository.supersedeForDocument document db)).documents =
          Table.update (fun d => d.visible && d.id = document)
            (fun d => { d with deletedAt := some now }) db.documents := rfl
    apply updated_of_update _ documents rfl
    exact fun d => ⟨rfl, rfl, rfl⟩

end Transactions

/-! ### The surroundings of a call -/

/-- What the calls for other documents leave alone. -/
structure Others (id : DocumentId) (s s' : Shared) : Prop where
  unique : Unique s.db → Unique s'.db
  objects : ∀ kb, ∀ x : ObjectKey × String, x.1 = buildDocumentKey kb id →
    (x ∈ s'.objects ↔ x ∈ s.objects)
  row : (∃ d ∈ s'.db.documents, d.id = id) ↔ ∃ d ∈ s.db.documents, d.id = id
  knowledgeBases : s'.db.knowledgeBases = s.db.knowledgeBases

theorem Others.refl (id : DocumentId) (s : Shared) : Others id s s where
  unique := fun h => h
  objects _ _ _ := Iff.rfl
  row := Iff.rfl
  knowledgeBases := rfl

theorem Others.trans {id : DocumentId} {s s' s'' : Shared} (h : Others id s s')
    (h' : Others id s' s'') :
  Others id s s''
  where
  unique := h'.unique ∘ h.unique
  objects kb x hx := (h'.objects kb x hx).trans (h.objects kb x hx)
  row := h'.row.trans h.row
  knowledgeBases := h'.knowledgeBases.trans h.knowledgeBases

/-- A call, with what it shares with the others. -/
structure Local where
  shared : Shared
  met : Met

def surroundings (cfg : Settings) (call : Call) : Contract Op.Reply Exn Local where
  step op l r l' := ∃ answer, l.shared.perform cfg none op answer = some (r, l'.shared) ∧
    l'.met = l.met.note l.shared op answer
  rely l l' := l'.met = l.met ∧ ∀ id, call.makes = some id → Others id l.shared l'.shared
  guarantee l l' := (∀ id, call.makes ≠ some id → Others id l.shared l'.shared) ∧
    (Unique l.shared.db → Unique l'.shared.db) ∧
    ∀ x ∈ l'.shared.objects, x ∈ l.shared.objects ∨ call.storageKey = some x.1
  refl l := ⟨rfl, fun id _ => Others.refl id l.shared⟩
  trans h h' := ⟨h'.1.trans h.1, fun id hid => (h.2 id hid).trans (h'.2 id hid)⟩

section Steps

variable {cfg : Settings} {call : Call} {l l' : Local}

/-- What a transaction can do. -/
theorem step_tx {t : Tx} {r : Except Exn t.Reply}
    (h : (surroundings cfg call).step (.tx t) l r l') :
  (∃ a, r = .ok a ∧ transact cfg l.shared.now t l.shared.db = .ok (a, l'.shared.db) ∧
      l'.shared.objects = l.shared.objects ∧ l'.met = { l.met with found := some l.shared.db }) ∨
    ∃ e, r = .error e ∧ l'.shared = l.shared ∧
      ((transact cfg l.shared.now t l.shared.db = .error e ∧
          l'.met = { l.met with found := some l.shared.db }) ∨
        l'.met = { l.met with disturbed := true })
  := by
  obtain ⟨answer, hperform, hmet⟩ := h
  cases answer with
  | done =>
    simp only [Shared.perform] at hperform
    split at hperform
    next a db hcommit =>
      obtain ⟨rfl, hshared⟩ := Prod.mk.inj (Option.some.inj hperform)
      left
      refine ⟨a, rfl, ?_, ?_, hmet⟩
      · rw [← hshared]
        exact hcommit
      · rw [← hshared]
    next e hfail =>
      obtain ⟨rfl, hshared⟩ := Prod.mk.inj (Option.some.inj hperform)
      exact Or.inr ⟨e, rfl, hshared.symm, Or.inl ⟨hfail, hmet⟩⟩
  | raised e =>
    obtain ⟨rfl, hshared⟩ := Shared.perform_raised hperform
    exact Or.inr ⟨e, rfl, hshared, Or.inr hmet⟩
  | denied => cases hperform
  | reported model => cases hperform

theorem step_putObject {key : ObjectKey} {content : String} {r : Except Exn Unit}
    (h : (surroundings cfg call).step (.putObject key content) l r l') :
  (r = .ok () ∧ l'.shared = { l.shared with objects := (key, content) :: l.shared.objects } ∧
      l'.met = l.met) ∨
    ∃ e, r = .error e ∧ l'.shared = l.shared ∧ l'.met = { l.met with disturbed := true }
  := by
  obtain ⟨answer, hperform, hmet⟩ := h
  cases answer with
  | done =>
    obtain ⟨rfl, hshared⟩ := Prod.mk.inj (Option.some.inj hperform)
    exact Or.inl ⟨rfl, hshared.symm, hmet⟩
  | raised e =>
    obtain ⟨rfl, hshared⟩ := Shared.perform_raised hperform
    exact Or.inr ⟨e, rfl, hshared, hmet⟩
  | denied => cases hperform
  | reported model => cases hperform

theorem step_deleteObject {key : ObjectKey} {r : Except Exn Unit}
    (h : (surroundings cfg call).step (.deleteObject key) l r l') :
  (r = .ok () ∧
      l'.shared = { l.shared with objects := l.shared.objects.filter (·.1 ≠ key) } ∧
      l'.met = l.met) ∨
    ∃ e, r = .error e ∧ l'.shared = l.shared ∧ l'.met = { l.met with undiscarded := true }
  := by
  obtain ⟨answer, hperform, hmet⟩ := h
  cases answer with
  | done =>
    obtain ⟨rfl, hshared⟩ := Prod.mk.inj (Option.some.inj hperform)
    exact Or.inl ⟨rfl, hshared.symm, hmet⟩
  | raised e =>
    obtain ⟨rfl, hshared⟩ := Shared.perform_raised hperform
    exact Or.inr ⟨e, rfl, hshared, hmet⟩
  | denied => cases hperform
  | reported model => cases hperform

/-- A message is sent or not; the sender goes on. -/
theorem step_enqueue {task : Task} {sentFor delaySeconds : ℕ} {r : Except Exn Bool}
    (h : (surroundings cfg call).step (.enqueue task sentFor delaySeconds) l r l') :
  ∃ sent, r = .ok sent ∧ l'.shared.db = l.shared.db ∧ l'.shared.objects = l.shared.objects ∧
    l'.met = l.met
  := by
  obtain ⟨answer, hperform, hmet⟩ := h
  cases answer with
  | done =>
    obtain ⟨rfl, hshared⟩ := Prod.mk.inj (Option.some.inj hperform)
    refine ⟨true, rfl, ?_, ?_, hmet⟩
    · rw [← hshared]
      rfl
    · rw [← hshared]
      rfl
  | denied =>
    obtain ⟨rfl, hshared⟩ := Prod.mk.inj (Option.some.inj hperform)
    refine ⟨false, rfl, ?_, ?_, hmet⟩
    · rw [← hshared]
    · rw [← hshared]
  | raised e =>
    simp only [Shared.perform] at hperform
    cases hperform
  | reported model => cases hperform

end Steps

/-! ### The outline of an upload -/

section Upload

variable {cfg : Settings} {kb : KbId} {id : DocumentId} {content mediaType : String}

/-- An upload that nothing has failed yet: whether its object is stored, and whether it has passed
the checks. -/
structure Uploading (kb : KbId) (id : DocumentId) (stored checked : Bool) (l : Local) : Prop where
  unique : Unique l.shared.db
  fresh : ¬∃ d ∈ l.shared.db.documents, d.id = id
  disturbed : l.met.disturbed = false
  undiscarded : l.met.undiscarded = false
  absent : stored = false → ∀ x ∈ l.shared.objects, x.1 ≠ buildDocumentKey kb id
  known : checked = true → ∃ row ∈ l.shared.db.knowledgeBases, row.id = kb

/-- The insertion has failed. -/
structure Failed (cfg : Settings) (kb : KbId) (id : DocumentId) (content : String)
    (discarded : Bool) (e : Exn) (l : Local) : Prop where
  cause : l.met.disturbed = false → e = .integrity "IntegrityError" ∧
    ∃ db, l.met.found = some db ∧ Unique db ∧ Taken db kb (cfg.sha256 content)
  absent : discarded = true → l.met.undiscarded = false →
    ∀ x ∈ l.shared.objects, x.1 ≠ buildDocumentKey kb id

/-- What an upload ends with. -/
structure Ends (cfg : Settings) (kb : KbId) (id : DocumentId) (content : String)
    (r : Except Exn Unit) (l : Local) : Prop where
  decided : l.met.disturbed = false → (∃ row ∈ l.shared.db.knowledgeBases, row.id = kb) →
    ∃ db, l.met.found = some db ∧ Unique db ∧
      r = if Taken db kb (cfg.sha256 content) then .error duplicate else .ok ()
  absent : (∃ e, r = .error e) → l.met.undiscarded = false →
    ∀ x ∈ l.shared.objects, x.1 ≠ buildDocumentKey kb id
  row : r = .ok () → ∃ d ∈ l.shared.db.documents, d.id = id

/-- The objects under a key stay away while the others work. -/
theorem absent_of_others {s s' : Shared} (h : Others id s s')
    (absent : ∀ x ∈ s.objects, x.1 ≠ buildDocumentKey kb id) :
  ∀ x ∈ s'.objects, x.1 ≠ buildDocumentKey kb id
  := by
  intro x hx hkey
  exact absent x ((h.objects kb x hkey).mp hx) hkey

theorem stable_uploading (stored checked : Bool) :
  (surroundings cfg (.upload kb id content mediaType)).Stable (Uploading kb id stored checked)
  := by
  rintro l l' h ⟨met, others⟩
  have others := others id rfl
  constructor
  · exact others.unique h.unique
  · exact fun row => h.fresh (others.row.mp row)
  · rw [met]
    exact h.disturbed
  · rw [met]
    exact h.undiscarded
  · exact fun unstored => absent_of_others others (h.absent unstored)
  · intro hc
    rw [others.knowledgeBases]
    exact h.known hc

theorem stable_failed (discarded : Bool) (e : Exn) :
  (surroundings cfg (.upload kb id content mediaType)).Stable
    (Failed cfg kb id content discarded e)
  := by
  rintro l l' h ⟨met, others⟩
  constructor
  · rw [met]
    exact h.cause
  · intro hd hu
    rw [met] at hu
    exact absent_of_others (others id rfl) (h.absent hd hu)

theorem stable_ends (r : Except Exn Unit) :
  (surroundings cfg (.upload kb id content mediaType)).Stable (Ends cfg kb id content r)
  := by
  rintro l l' h ⟨met, others⟩
  have others := others id rfl
  constructor
  · rw [met, others.knowledgeBases]
    exact h.decided
  · intro hr hu
    rw [met] at hu
    exact absent_of_others others (h.absent hr hu)
  · exact fun hr => others.row.mpr (h.row hr)

/-- A step that leaves the database and the objects alone. -/
theorem guarantee_of_eq {call : Call} {l l' : Local} (db : l'.shared.db = l.shared.db)
    (objects : l'.shared.objects = l.shared.objects) :
  (surroundings cfg call).guarantee l l'
  := by
  refine ⟨fun id _ => ⟨?_, ?_, ?_, ?_⟩, ?_, ?_⟩
  · rw [db]
    exact fun h => h
  · intro kb x _
    rw [objects]
  · rw [db]
  · rw [db]
  · rw [db]
    exact fun h => h
  · intro x hx
    rw [objects] at hx
    exact Or.inl hx

/-- A step that leaves the database alone, and the objects but for the call's own one. -/
theorem guarantee_of_own {l l' : Local} (db : l'.shared.db = l.shared.db)
    (objects : ∀ x : ObjectKey × String, x.1 ≠ buildDocumentKey kb id →
      (x ∈ l'.shared.objects ↔ x ∈ l.shared.objects)) :
  (surroundings cfg (.upload kb id content mediaType)).guarantee l l'
  := by
  refine ⟨?_, ?_, ?_⟩
  · intro id' hid
    refine ⟨?_, ?_, ?_, ?_⟩
    · rw [db]
      exact fun h => h
    · intro kb' x hx
      apply objects
      rw [hx]
      rintro ⟨⟩
      exact hid rfl
    · rw [db]
    · rw [db]
  · rw [db]
    exact fun h => h
  · intro x hx
    by_cases hkey : x.1 = buildDocumentKey kb id
    · exact Or.inr (congrArg some hkey.symm)
    · exact Or.inl ((objects x hkey).mp hx)

theorem check_triple :
  (surroundings cfg (.upload kb id content mediaType)).Triple (Uploading kb id false false)
    (tx (.checkUpload kb (cfg.sha256 content))) fun r l => match r with
      | .ok _ => Uploading kb id false true l
      | .error e => Ends cfg kb id content (.error e) l
  := by
  apply Contract.Triple.perform (stable_uploading false false)
  · intro l r l' h hstep
    have checks := checkUpload_cases cfg l.shared.now l.shared.db kb (cfg.sha256 content)
    obtain ⟨u, rfl, hcommit, objects, met⟩ | ⟨e, rfl, same, hfail⟩ := step_tx hstep
    · obtain ⟨htx, known, -⟩ | ⟨htx, -⟩ | ⟨htx, -⟩ := checks
      · have db : l'.shared.db = l.shared.db :=
          (Prod.mk.inj (Except.ok.inj (hcommit.symm.trans htx))).2
        refine ⟨guarantee_of_eq db objects, ?_⟩
        constructor
        · rw [db]
          exact h.unique
        · rw [db]
          exact h.fresh
        · rw [met]
          exact h.disturbed
        · rw [met]
          exact h.undiscarded
        · rw [objects]
          exact h.absent
        · intro _
          rw [db]
          exact known
      · cases hcommit.symm.trans htx
      · cases hcommit.symm.trans htx
    · refine ⟨guarantee_of_eq (by rw [same]) (by rw [same]), ?_⟩
      constructor
      · intro undisturbed known
        obtain ⟨hfail, met⟩ | met := hfail
        · refine ⟨l.shared.db, by rw [met], h.unique, ?_⟩
          obtain ⟨htx, -⟩ | ⟨htx, live⟩ | ⟨-, missing⟩ := checks
          · cases hfail.symm.trans htx
          · cases hfail.symm.trans htx
            obtain ⟨d, hd, content, -⟩ := live
            exact (if_pos ⟨d, hd, content⟩).symm
          · rw [same] at known
            exact absurd known missing
        · rw [met] at undisturbed
          cases undisturbed
      · intro _ _
        rw [same]
        exact h.absent rfl
      · nofun
  · rintro (e | u)
    · exact stable_ends (.error e)
    · exact stable_uploading false true

theorem put_triple :
  (surroundings cfg (.upload kb id content mediaType)).Triple (Uploading kb id false true)
    (perform (.putObject (buildDocumentKey kb id) content)) fun r l => match r with
      | .ok _ => Uploading kb id true true l
      | .error e => Ends cfg kb id content (.error e) l
  := by
  apply Contract.Triple.perform (stable_uploading false true)
  · intro l r l' h hstep
    obtain ⟨rfl, same, met⟩ | ⟨e, rfl, same, met⟩ := step_putObject hstep
    · refine ⟨guarantee_of_own (by rw [same]) ?_, ?_⟩
      · intro x hx
        rw [same]
        constructor
        · intro hmem
          obtain rfl | hmem := List.mem_cons.mp hmem
          · exact absurd rfl hx
          · exact hmem
        · exact List.mem_cons_of_mem _
      · constructor
        · rw [same]
          exact h.unique
        · rw [same]
          exact h.fresh
        · rw [met]
          exact h.disturbed
        · rw [met]
          exact h.undiscarded
        · nofun
        · rw [same]
          exact h.known
    · refine ⟨guarantee_of_eq (by rw [same]) (by rw [same]), ?_⟩
      constructor
      · intro undisturbed
        rw [met] at undisturbed
        cases undisturbed
      · intro _ _
        rw [same]
        exact h.absent rfl
      · nofun
  · rintro (e | u)
    · exact stable_ends (.error e)
    · exact stable_uploading true true

/-- The insertion: the row is there, or the upload has failed. -/
theorem create_triple :
  (surroundings cfg (.upload kb id content mediaType)).Triple (Uploading kb id true true)
    (tx (.createDocument id kb mediaType (cfg.sha256 content))) fun r l => match r with
      | .ok _ => Ends cfg kb id content (.ok ()) l
      | .error e => Failed cfg kb id content false e l
  := by
  apply Contract.Triple.perform (stable_uploading true true)
  · intro l r l' h hstep
    have fresh : ∀ d ∈ l.shared.db.documents, d.id ≠ id := fun d hd hid => h.fresh ⟨d, hd, hid⟩
    have creates := createDocument_cases cfg l.shared.now mediaType (cfg.sha256 content)
      (h.known rfl) fresh
    obtain ⟨u, rfl, hcommit, objects, met⟩ | ⟨e, rfl, same, hfail⟩ := step_tx hstep
    · obtain ⟨d, hid, hkb, hhash, htx, free⟩ | ⟨htx, -⟩ := creates
      · have db := (Prod.mk.inj (Except.ok.inj (hcommit.symm.trans htx))).2
        have documents : l'.shared.db.documents = l.shared.db.documents ++ [d] := by rw [db]
        have unique : Unique l.shared.db → Unique l'.shared.db := by
          intro unique
          apply unique_append unique _ documents
          rw [hkb, hhash]
          exact free
        refine ⟨⟨?_, unique, ?_⟩, ?_⟩
        · intro id' hne
          refine ⟨unique, ?_, ?_, by rw [db]⟩
          · intro kb' x _
            rw [objects]
          · rw [documents]
            constructor
            · rintro ⟨d', hd', rfl⟩
              obtain hd' | hd' := List.mem_append.mp hd'
              · exact ⟨d', hd', rfl⟩
              · rw [List.mem_singleton.mp hd', hid] at hne
                exact absurd rfl hne
            · rintro ⟨d', hd', hid'⟩
              exact ⟨d', List.mem_append_left _ hd', hid'⟩
        · intro x hx
          rw [objects] at hx
          exact Or.inl hx
        · constructor
          · intro _ _
            exact ⟨l.shared.db, by rw [met], h.unique, (if_neg free).symm⟩
          · nofun
          · intro _
            rw [documents]
            exact ⟨d, List.mem_append_right _ (List.mem_singleton_self d), hid⟩
      · cases hcommit.symm.trans htx
    · refine ⟨guarantee_of_eq (by rw [same]) (by rw [same]), ?_⟩
      constructor
      · intro undisturbed
        obtain ⟨hfail, met⟩ | met := hfail
        · obtain ⟨d, -, -, -, htx, -⟩ | ⟨htx, taken⟩ := creates
          · cases hfail.symm.trans htx
          · cases hfail.symm.trans htx
            exact ⟨rfl, l.shared.db, by rw [met], h.unique, taken⟩
        · rw [met] at undisturbed
          cases undisturbed
      · nofun
  · rintro (e | u)
    · exact stable_failed false e
    · exact stable_ends (.ok ())

/-- The object of a failed upload is removed, unless that fails as well. -/
theorem discard_triple (e : Exn) :
  (surroundings cfg (.upload kb id content mediaType)).Triple
    (Failed cfg kb id content false e) (DocumentService.discard (buildDocumentKey kb id))
    fun r l => r = .ok () ∧ Failed cfg kb id content true e l
  := by
  have stable (discarded : Bool) (e : Exn) :
      (surroundings cfg (.upload kb id content mediaType)).Stable
        (Failed cfg kb id content discarded e) :=
    stable_failed discarded e
  unfold DocumentService.discard
  apply Contract.Triple.handle (Q := fun _ l => Failed cfg kb id content true e l)
  · apply Contract.Triple.perform (stable false e)
    · intro l r l' h hstep
      obtain ⟨rfl, same, met⟩ | ⟨e', rfl, same, met⟩ := step_deleteObject hstep
      · refine ⟨guarantee_of_own (by rw [same]) ?_, ?_⟩
        · intro x hx
          rw [same, List.mem_filter, decide_eq_true_eq]
          exact and_iff_left hx
        · constructor
          · rw [met]
            exact h.cause
          · intro _ _ x hx
            rw [same] at hx
            exact of_decide_eq_true (List.mem_filter.mp hx).2
      · refine ⟨guarantee_of_eq (by rw [same]) (by rw [same]), ?_⟩
        constructor
        · rw [met]
          exact h.cause
        · intro _ discarded
          rw [met] at discarded
          cases discarded
    · exact fun _ => stable true e
  · intro e'
    exact Contract.Triple.pure (stable true e) fun l h => ⟨rfl, h⟩
  · exact fun _ => stable true e
  · exact fun u l h => ⟨rfl, h⟩

/-- The error that an upload raises after its insertion has failed. -/
theorem Failed.ends {e e' : Exn} {l : Local} (h : Failed cfg kb id content true e l)
    (he : e = .integrity "IntegrityError" → e' = duplicate) :
  Ends cfg kb id content (.error e') l
  := by
  constructor
  · intro undisturbed _
    obtain ⟨integrity, db, found, unique, taken⟩ := h.cause undisturbed
    refine ⟨db, found, unique, ?_⟩
    rw [he integrity]
    exact (if_pos taken).symm
  · exact fun _ => h.absent rfl
  · nofun

theorem enqueue_triple {task : Task} {sentFor delaySeconds : ℕ} :
  (surroundings cfg (.upload kb id content mediaType)).Triple (Ends cfg kb id content (.ok ()))
    (perform (.enqueue task sentFor delaySeconds)) fun r l =>
      (∃ sent, r = .ok sent) ∧ Ends cfg kb id content (.ok ()) l
  := by
  apply Contract.Triple.perform (stable_ends (.ok ()))
  · intro l r l' h hstep
    obtain ⟨sent, rfl, db, objects, met⟩ := step_enqueue hstep
    refine ⟨guarantee_of_eq db objects, ⟨sent, rfl⟩, ?_⟩
    constructor
    · rw [met, db]
      exact h.decided
    · nofun
    · rw [db]
      exact h.row
  · rintro r l l' ⟨hr, h⟩ hrely
    exact ⟨hr, stable_ends (.ok ()) l l' h hrely⟩

theorem upload_triple :
  (surroundings cfg (.upload kb id content mediaType)).Triple (Uploading kb id false false)
    (DocumentService.upload cfg kb id content mediaType) (Ends cfg kb id content)
  := by
  unfold DocumentService.upload
  apply Contract.Triple.bind check_triple
  · intro _
    apply Contract.Triple.bind put_triple
    · intro _
      apply Contract.Triple.bind (Q := Ends cfg kb id content)
      · apply Contract.Triple.handle create_triple
        · intro e
          apply Contract.Triple.bind (discard_triple e)
          · intro _
            apply Contract.Triple.assume
            intro _
            cases e with
            | integrity name =>
              apply Contract.Triple.raise (stable_failed true _)
              exact fun l h => h.ends fun _ => rfl
            | _ =>
              apply Contract.Triple.raise (stable_failed true _)
              exact fun l h => h.ends nofun
          · rintro e' l ⟨⟨⟩, -⟩
        · exact fun _ => stable_ends (.ok ())
        · exact fun _ l h => h
      · intro _
        apply Contract.Triple.bind enqueue_triple
        · intro sent
          apply Contract.Triple.assume
          intro _
          exact Contract.Triple.pure (stable_ends (.ok ())) fun l h => h
        · rintro e l ⟨⟨_, ⟨⟩⟩, -⟩
      · exact fun e l h => h
    · exact fun e l h => h
  · exact fun e l h => h

end Upload

theorem delete_triple {cfg : Settings} (document : DocumentId) :
  (surroundings cfg (.delete document)).Triple (fun _ => True) (DocumentService.delete document)
    fun _ _ => True
  := by
  apply Contract.Triple.perform (fun _ _ _ _ => trivial)
  · intro l r l' _ hstep
    refine ⟨?_, trivial⟩
    obtain ⟨u, rfl, hcommit, objects, -⟩ | ⟨e, rfl, same, -⟩ := step_tx hstep
    · have updated := delete_updated hcommit
      refine ⟨fun id _ => ⟨updated.unique, ?_, ?_, updated.knowledgeBases⟩, updated.unique, ?_⟩
      · intro kb x _
        rw [objects]
      · constructor
        · rintro ⟨d', hd', rfl⟩
          obtain ⟨d, hd, hid, -⟩ := updated.old d' hd'
          exact ⟨d, hd, hid.symm⟩
        · rintro ⟨d, hd, rfl⟩
          exact updated.new d hd
      · intro x hx
        rw [objects] at hx
        exact Or.inl hx
    · exact guarantee_of_eq (by rw [same]) (by rw [same])
  · exact fun _ _ _ _ _ => trivial

/-! ### The runs -/

section Runs

variable {cfg : Settings} {h : List (World × Action)} {w w' : World} {a : Action}

/-- What a call ends with. -/
def Call.Ends (cfg : Settings) : Call → Except Exn Unit → Local → Prop
  | .upload kb id content _ => Uploads.Ends cfg kb id content
  | .delete _ => fun _ _ => True

/-- The rest of a session is safe. -/
def Session.Safe (cfg : Settings) (session : Session) (s : Shared) : Prop :=
  (surroundings cfg session.call).Safe (session.call.Ends cfg) session.code ⟨s, session.met⟩

/-- What holds in every state of a run. -/
structure Inv (cfg : Settings) (w : World) : Prop where
  unique : Unique w.shared.db
  ids : ∀ (i j : ℕ) (session session' : Session), w.sessions[i]? = some session →
    w.sessions[j]? = some session' → i ≠ j →
      ∀ id, session.call.makes = some id → session'.call.makes ≠ some id
  rows : ∀ d ∈ w.shared.db.documents, ∃ session ∈ w.sessions, session.call.makes = some d.id
  objects : ∀ x ∈ w.shared.objects, ∃ session ∈ w.sessions, session.call.storageKey = some x.1
  safe : ∀ session ∈ w.sessions, session.Safe cfg w.shared

/-- What a step can do. -/
theorem step_cases (hstep : step cfg a w = some w') :
  (∃ call, a = .start call ∧
      (∀ id, call.makes = some id → ∀ session ∈ w.sessions, session.call.makes ≠ some id) ∧
      w' = { w with sessions := w.sessions ++ [{ call := call, code := call.code cfg }] }) ∨
    (∃ i answer session op next r s, a = .work i answer ∧ w.sessions[i]? = some session ∧
      session.code = .call op next ∧ w.shared.perform cfg none op answer = some (r, s) ∧
      w' = ⟨s, w.sessions.set i ⟨session.call, session.met.note w.shared op answer, next r⟩⟩) ∨
    ∃ seconds, a = .tick seconds ∧
      w' = { w with shared := { w.shared with now := w.shared.now + seconds } }
  := by
  cases a with
  | start call =>
    rw [step] at hstep
    split at hstep
    next fresh =>
      cases hstep
      exact Or.inl ⟨call, rfl, fresh, rfl⟩
    next => cases hstep
  | work i answer =>
    simp only [step, Option.bind_eq_bind, Option.bind_eq_some_iff] at hstep
    obtain ⟨session, hsession, hstep⟩ := hstep
    split at hstep
    next op next hcode =>
      obtain ⟨⟨r, s⟩, hperform, hw'⟩ := Option.bind_eq_some_iff.mp hstep
      cases hw'
      exact Or.inr (Or.inl ⟨i, answer, session, op, next, r, s, rfl, hsession, hcode, hperform, rfl⟩)
    next => cases hstep
  | tick seconds =>
    cases hstep
    exact Or.inr (Or.inr ⟨seconds, rfl, rfl⟩)

theorem Call.makes_of_storageKey {call : Call} {kb : KbId} {id : DocumentId}
    (h : call.storageKey = some (buildDocumentKey kb id)) :
  call.makes = some id
  := by
  cases call with
  | upload kb' id' content mediaType =>
    cases h
    rfl
  | delete document => cases h

/-- A new call is safe. -/
theorem Call.safe (call : Call) {s : Shared} (unique : Unique s.db)
    (rows : ∀ id, call.makes = some id → ¬∃ d ∈ s.db.documents, d.id = id)
    (objects : ∀ x ∈ s.objects, ∀ kb id, call.makes = some id → x.1 ≠ buildDocumentKey kb id) :
  Session.Safe cfg { call := call, code := call.code cfg } s
  := by
  cases call with
  | upload kb id content mediaType =>
    apply upload_triple.safe
    exact ⟨unique, rows id rfl, rfl, rfl, fun _ x hx => objects x hx kb id rfl, nofun⟩
  | delete document => exact (delete_triple document).safe _ trivial

/-- The other sessions, after an operation of one. -/
theorem Inv.others (inv : Inv cfg w) {i j : ℕ} {session session' : Session} {s : Shared} {met : Met}
    (hi : w.sessions[i]? = some session) (hj : w.sessions[j]? = some session') (hne : i ≠ j)
    (guarantee : (surroundings cfg session.call).guarantee ⟨w.shared, session.met⟩ ⟨s, met⟩) :
  session'.Safe cfg s
  := by
  apply Contract.Safe.stable (t := ⟨s, session'.met⟩) (inv.safe session' (List.mem_of_getElem? hj))
  refine ⟨rfl, fun id hid => guarantee.1 id fun own => ?_⟩
  exact inv.ids i j session session' hi hj hne id own hid

/-- A session is replaced by one of the same call. -/
theorem Inv.set (inv : Inv cfg w) {i : ℕ} {session session' : Session} {s : Shared}
    (hi : w.sessions[i]? = some session) (call : session'.call = session.call)
    (guarantee : (surroundings cfg session.call).guarantee ⟨w.shared, session.met⟩
      ⟨s, session'.met⟩)
    (safe : session'.Safe cfg s) :
  Inv cfg ⟨s, w.sessions.set i session'⟩
  := by
  have hlt := (List.getElem?_eq_some_iff.mp hi).1
  have calls : ∀ (j : ℕ) (x : Session), (w.sessions.set i session')[j]? = some x →
      ∃ y : Session, w.sessions[j]? = some y ∧ x.call = y.call := by
    intro j x hx
    obtain ⟨rfl, rfl⟩ | ⟨-, hj⟩ := Table.of_getElem?_set hx
    · exact ⟨session, hi, call⟩
    · exact ⟨x, hj, rfl⟩
  have kept : ∀ y ∈ w.sessions, ∃ x ∈ w.sessions.set i session', x.call = y.call := by
    intro y hy
    obtain ⟨j, hj⟩ := List.mem_iff_getElem?.mp hy
    by_cases hij : i = j
    · subst hij
      cases hi.symm.trans hj
      exact ⟨session', List.mem_of_getElem? (List.getElem?_set_self hlt), call⟩
    · refine ⟨y, List.mem_of_getElem? (i := j) ?_, rfl⟩
      rw [List.getElem?_set_ne hij]
      exact hj
  have own : ∃ x ∈ w.sessions.set i session', x.call = session.call :=
    kept session (List.mem_of_getElem? hi)
  obtain ⟨others, unique, objects⟩ := guarantee
  constructor
  · exact unique inv.unique
  · intro j k x x' hj hk hne
    obtain ⟨y, hy, hcall⟩ := calls j x hj
    obtain ⟨y', hy', hcall'⟩ := calls k x' hk
    rw [hcall, hcall']
    exact inv.ids j k y y' hy hy' hne
  · intro d hd
    by_cases mine : session.call.makes = some d.id
    · obtain ⟨x, hx, hcall⟩ := own
      exact ⟨x, hx, by rw [hcall, mine]⟩
    · obtain ⟨d', hd', hid⟩ := (others d.id mine).row.mp ⟨d, hd, rfl⟩
      obtain ⟨y, hy, hmakes⟩ := inv.rows d' hd'
      obtain ⟨x, hx, hcall⟩ := kept y hy
      exact ⟨x, hx, by rw [hcall, hmakes, hid]⟩
  · intro x hx
    obtain old | mine := objects x hx
    · obtain ⟨y, hy, hkey⟩ := inv.objects x old
      obtain ⟨z, hz, hcall⟩ := kept y hy
      exact ⟨z, hz, by rw [hcall, hkey]⟩
    · obtain ⟨z, hz, hcall⟩ := own
      exact ⟨z, hz, by rw [hcall, mine]⟩
  · intro x hx
    obtain ⟨j, hj⟩ := List.mem_iff_getElem?.mp hx
    obtain ⟨rfl, rfl⟩ | ⟨hne, hj⟩ := Table.of_getElem?_set hj
    · exact safe
    · exact inv.others hi hj (Ne.symm hne) ⟨others, unique, objects⟩

theorem Inv.step (inv : Inv cfg w) (hstep : Uploads.step cfg a w = some w') : Inv cfg w' := by
  obtain ⟨call, rfl, fresh, rfl⟩ |
    ⟨i, answer, session, op, next, r, s, rfl, hsession, hcode, hperform, rfl⟩ |
    ⟨seconds, rfl, rfl⟩ := step_cases hstep
  · have old : ∀ (j : ℕ) (x : Session),
        (w.sessions ++ [{ call := call, code := call.code cfg }])[j]? = some x →
          w.sessions[j]? = some x ∨ (j = w.sessions.length ∧ x.call = call) := by
      intro j x hx
      obtain hj | ⟨last, rfl⟩ := Table.of_getElem?_concat hx
      · exact Or.inl hj
      · exact Or.inr ⟨last, rfl⟩
    refine ⟨inv.unique, ?_, ?_, ?_, ?_⟩
    · intro j k x x' hj hk hne id hid
      obtain hj | ⟨rfl, new⟩ := old j x hj
      · obtain hk | ⟨-, new'⟩ := old k x' hk
        · exact inv.ids j k x x' hj hk hne id hid
        · rw [new']
          exact fun hid' => fresh id hid' x (List.mem_of_getElem? hj) hid
      · obtain hk | ⟨rfl, -⟩ := old k x' hk
        · rw [new] at hid
          exact fresh id hid x' (List.mem_of_getElem? hk)
        · exact absurd rfl hne
    · intro d hd
      obtain ⟨x, hx, hmakes⟩ := inv.rows d hd
      exact ⟨x, List.mem_append_left _ hx, hmakes⟩
    · intro x hx
      obtain ⟨y, hy, hkey⟩ := inv.objects x hx
      exact ⟨y, List.mem_append_left _ hy, hkey⟩
    · intro x hx
      obtain hx | hx := List.mem_append.mp hx
      · exact inv.safe x hx
      · rw [List.mem_singleton.mp hx]
        apply call.safe inv.unique
        · rintro id hid ⟨d, hd, rfl⟩
          obtain ⟨y, hy, hmakes⟩ := inv.rows d hd
          exact fresh d.id hid y hy hmakes
        · intro x hx kb id hid hkey
          obtain ⟨y, hy, hstored⟩ := inv.objects x hx
          rw [hkey] at hstored
          exact fresh id hid y hy (Call.makes_of_storageKey hstored)
  · have safe := inv.safe session (List.mem_of_getElem? hsession)
    unfold Session.Safe at safe
    rw [hcode] at safe
    obtain ⟨guarantee, safe⟩ := safe.call (r := r)
      (t := ⟨s, session.met.note w.shared op answer⟩) ⟨answer, hperform, rfl⟩
    exact inv.set hsession rfl guarantee safe
  · refine ⟨inv.unique, inv.ids, inv.rows, inv.objects, ?_⟩
    intro session hsession
    apply Contract.Safe.stable (inv.safe session hsession)
    exact ⟨rfl, fun id _ => ⟨fun h => h, fun _ _ _ => Iff.rfl, Iff.rfl, rfl⟩⟩

theorem inv_of_run (run : (uploads cfg).Run h w) : Inv cfg w := by
  apply run.invariant (I := Inv cfg)
  · rintro w ⟨sessions, documents, objects⟩
    constructor
    · intro d hd
      rw [documents] at hd
      cases hd
    · intro i j session session' hi
      rw [sessions] at hi
      cases hi
    · intro d hd
      rw [documents] at hd
      cases hd
    · intro x hx
      rw [objects] at hx
      cases hx
    · intro session hsession
      rw [sessions] at hsession
      cases hsession
  · exact fun a w w' inv hstep => inv.step hstep

/-- A decision by the rows is a decision by the documents just if the two agree. -/
theorem decision_iff {p q : Prop} [Decidable p] [Decidable q] :
  ((if p then .error duplicate else .ok () : Except Exn Unit) =
    if q then .error duplicate else .ok ()) ↔ (p ↔ q)
  := by
  by_cases hp : p
  · rw [if_pos hp]
    by_cases hq : q
    · rw [if_pos hq]
      exact ⟨fun _ => ⟨fun _ => hq, fun _ => hp⟩, fun _ => rfl⟩
    · rw [if_neg hq]
      exact ⟨nofun, fun same => absurd (same.mp hp) hq⟩
  · rw [if_neg hp]
    by_cases hq : q
    · rw [if_pos hq]
      exact ⟨nofun, fun same => absurd (same.mpr hq) hp⟩
    · rw [if_neg hq]
      exact ⟨fun _ => ⟨fun h => absurd h hp, fun h => absurd h hq⟩, fun _ => rfl⟩

/-- In every run: an upload into a knowledge base that nothing has disturbed is refused as a
duplicate if a document has its content at that moment, and succeeds otherwise, if and only if no
deleted row of the knowledge base has the content at that moment.  An upload that has raised has
left no object, unless the removal has failed; and every object is that of an upload under way or of
a row, unless its removal has failed. -/
theorem upload_agrees_iff (run : (uploads cfg).Run h w) :
  (∀ session ∈ w.sessions, ∀ kb id content mediaType,
    session.call = .upload kb id content mediaType → ∀ r, session.code.outcome = some r →
      (session.met.disturbed = false → (∃ row ∈ w.shared.db.knowledgeBases, row.id = kb) →
        ∃ db, session.met.found = some db ∧
          ((r = if Live db kb (cfg.sha256 content) then .error duplicate else .ok ()) ↔
            ∀ d ∈ db.documents, d.kbId = kb → d.contentHash = cfg.sha256 content →
              d.visible = true)) ∧
      ((∃ e, r = .error e) → session.met.undiscarded = false →
        ∀ x ∈ w.shared.objects, x.1 ≠ buildDocumentKey kb id)) ∧
  ∀ x ∈ w.shared.objects, ∃ session ∈ w.sessions, session.call.storageKey = some x.1 ∧
    (session.code.outcome = none ∨ session.met.undiscarded = true ∨
      ∃ d ∈ w.shared.db.documents, session.call.makes = some d.id)
  := by
  have inv := inv_of_run run
  have ends : ∀ session ∈ w.sessions, ∀ kb id content mediaType,
      session.call = .upload kb id content mediaType → ∀ r, session.code.outcome = some r →
        Ends cfg kb id content r ⟨w.shared, session.met⟩ := by
    intro session hsession kb id content mediaType hcall r hr
    have outcome := (inv.safe session hsession).outcome hr
    rw [hcall] at outcome
    exact outcome
  constructor
  · intro session hsession kb id content mediaType hcall r hr
    have final := ends session hsession kb id content mediaType hcall r hr
    refine ⟨?_, final.absent⟩
    intro undisturbed known
    obtain ⟨db, found, unique, hr⟩ := final.decided undisturbed known
    refine ⟨db, found, ?_⟩
    rw [hr, decision_iff]
    exact taken_iff_live unique
  · intro x hx
    obtain ⟨session, hsession, hkey⟩ := inv.objects x hx
    refine ⟨session, hsession, hkey, ?_⟩
    cases hr : session.code.outcome with
    | none => exact Or.inl rfl
    | some r =>
      right
      cases hcall : session.call with
      | delete document =>
        rw [hcall] at hkey
        cases hkey
      | upload kb id content mediaType =>
        rw [hcall] at hkey
        have final := ends session hsession kb id content mediaType hcall r hr
        cases r with
        | ok u =>
          right
          obtain ⟨d, hd, hid⟩ := final.row rfl
          exact ⟨d, hd, by rw [hid]; rfl⟩
        | error e =>
          left
          cases hu : session.met.undiscarded with
          | true => rfl
          | false => exact absurd (Option.some.inj hkey).symm (final.absent ⟨e, rfl⟩ hu x hx)

end Runs

/-! ### Small runs -/

/-- The next `n` operations of a session. -/
def works (i n : ℕ) : List Action := List.replicate n (.work i .done)

/-- One empty knowledge base. -/
def sampleWorld : World where
  shared := { db := { knowledgeBases := [{ id := 1 }] } }

/-- Two uploads of the same content: the second one passes the check before the row of the first one
is there, and is refused by the constraint. -/
def concurrentSample : List Action :=
  [.start (.upload 1 7 "a" "text/plain"), .start (.upload 1 8 "a" "text/plain")] ++
    works 0 2 ++ works 1 2 ++ works 0 2 ++ works 1 2

/-- A document is uploaded, deleted and uploaded again. -/
def reuploadSample : List Action :=
  .start (.upload 1 7 "a" "text/plain") :: works 0 4 ++
    .start (.delete 7) :: works 1 1 ++ .start (.upload 1 8 "a" "text/plain") :: works 2 4

theorem upload_agrees_iff_concurrent :
  ∃ h w session db, (uploads sampleSettings).Run h w ∧ session ∈ w.sessions ∧
    session.call = .upload 1 8 "a" "text/plain" ∧ session.met.found = some db ∧ Live db 1 "a" ∧
      session.code.outcome = some (.error duplicate)
  := by
  obtain ⟨h, w, run, result⟩ := (uploads sampleSettings).exists_run_of_exec concurrentSample
    (fun w => (w.sessions[1]?.any fun session : Session => decide (session.call =
      .upload 1 8 "a" "text/plain" ∧ session.met.disturbed = false) &&
        session.code.outcome.isSome && session.met.found.any fun db : Db =>
          decide (Live db 1 "a") && db.documents.all (·.visible)) &&
            w.shared.db.knowledgeBases.any (·.id = 1))
    (s := sampleWorld) ⟨rfl, rfl, rfl⟩ (by decide +kernel)
  simp only [Bool.and_eq_true, Option.any_eq_true, decide_eq_true_eq, List.any_eq_true,
    List.all_eq_true, Option.isSome_iff_exists] at result
  obtain ⟨⟨session, hsession, ⟨⟨hcall, undisturbed⟩, r, hr⟩, db, hfound, live, visible⟩, known⟩ :=
    result
  have hmem := List.mem_of_getElem? hsession
  have agrees := ((upload_agrees_iff run).1 session hmem 1 8 "a" "text/plain" hcall r hr).1
  obtain ⟨db', hfound', decided⟩ := agrees undisturbed known
  cases hfound.symm.trans hfound'
  refine ⟨h, w, session, db, run, hmem, hcall, hfound, live, ?_⟩
  rw [hr, decided.mpr fun d hd _ _ => visible d hd]
  exact congrArg some (if_pos live)

/-- After a delete the content is refused although no document has it. -/
theorem reupload_refused :
  ¬∀ h w, (uploads sampleSettings).Run h w → ∀ session ∈ w.sessions,
    ∀ kb id content mediaType, session.call = .upload kb id content mediaType →
      ∀ r db, session.code.outcome = some r → session.met.disturbed = false →
        session.met.found = some db → (∃ row ∈ w.shared.db.knowledgeBases, row.id = kb) →
          r = if Live db kb (sampleSettings.sha256 content) then .error duplicate else .ok ()
  := by
  intro claim
  obtain ⟨h, w, run, result⟩ := (uploads sampleSettings).exists_run_of_exec reuploadSample
    (fun w => (w.sessions[2]?.any fun session : Session => decide (session.call =
      .upload 1 8 "a" "text/plain" ∧ session.met.disturbed = false) &&
        decide (session.code.outcome = some (.error duplicate)) &&
          session.met.found.any fun db : Db => !decide (Live db 1 "a")) &&
            w.shared.db.knowledgeBases.any (·.id = 1))
    (s := sampleWorld) ⟨rfl, rfl, rfl⟩ (by decide +kernel)
  simp only [Bool.and_eq_true, Option.any_eq_true, decide_eq_true_eq, List.any_eq_true,
    Bool.not_eq_true', decide_eq_false_iff_not] at result
  obtain ⟨⟨session, hsession, ⟨⟨hcall, undisturbed⟩, hr⟩, db, hfound, gone⟩, known⟩ := result
  have refused := claim h w run session (List.mem_of_getElem? hsession) 1 8 "a" "text/plain" hcall
    _ db hr undisturbed hfound known
  cases refused.trans (if_neg gone)

end Lumina.Knowledge.Uploads
