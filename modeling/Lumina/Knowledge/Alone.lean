import Lumina.Knowledge.Embedding
import Lumina.Knowledge.WellFormed

/-!
# An embedding that nothing interferes with

A program may be run alone, with its operations answered one after the other, and it may be cut off
anywhere.  An embedding that is run alone and returns has given every active chunk of its document
an embedding, whatever earlier ones that were cut off or have failed have left behind; and it fails
by an exception from outside only.
-/

namespace Lumina.Knowledge

open Interleaving

section

variable (cfg : Settings)

/-- The run of a program that nothing interferes with, as far as there are answers. -/
def carryOut {α : Type} : List Answer → Prog α → Shared → Option (Option (Except Exn α) × Shared)
  | _, .pure a, s => some (some (.ok a), s)
  | _, .raise e, s => some (some (.error e), s)
  | [], .call _ _, s => some (none, s)
  | answer :: answers, .call op next, s =>
      (s.perform cfg none op answer).bind fun (r, t) => carryOut answers (next r) t

/-- Nothing interferes, the exceptions from outside are among the allowed ones, and the database
always satisfies `I`. -/
def alone (A : Exn → Prop) (I : Db → Prop) : Contract Op.Reply Exn Shared where
  step op s r t := ∃ answer, (∀ e, answer = .raised e → A e) ∧
    s.perform cfg none op answer = some (r, t)
  rely := Eq
  guarantee _ t := I t.db
  refl _ := rfl
  trans := Eq.trans

variable {cfg} {A : Exn → Prop} {I : Db → Prop} {α β : Type}

theorem stable_alone (P : Shared → Prop) :
  (alone cfg A I).Stable P
  := by
  rintro s _ h rfl
  exact h

/-- What is proved of a program holds of its runs, and `I` wherever they are cut off. -/
theorem carryOut_sound {p : Prog α} {Q : Except Exn α → Shared → Prop} {s t : Shared}
    {answers : List Answer} {r : Option (Except Exn α)} (safe : (alone cfg A I).Safe Q p s)
    (hI : I s.db) (allowed : ∀ e, .raised e ∈ answers → A e)
    (h : carryOut cfg answers p s = some (r, t)) :
  I t.db ∧ ∀ out, r = some out → Q out t
  := by
  induction answers generalizing p s with
  | nil =>
    cases p with
    | pure a =>
      cases h
      refine ⟨hI, ?_⟩
      rintro _ ⟨⟩
      exact safe.pure
    | raise e =>
      cases h
      refine ⟨hI, ?_⟩
      rintro _ ⟨⟩
      exact safe.raise
    | call op next =>
      cases h
      exact ⟨hI, nofun⟩
  | cons answer answers ih =>
    cases p with
    | pure a =>
      cases h
      refine ⟨hI, ?_⟩
      rintro _ ⟨⟩
      exact safe.pure
    | raise e =>
      cases h
      refine ⟨hI, ?_⟩
      rintro _ ⟨⟩
      exact safe.raise
    | call op next =>
      obtain ⟨⟨reply, u⟩, performed, rest⟩ := Option.bind_eq_some_iff.mp h
      have step : (alone cfg A I).step op s reply u := by
        refine ⟨answer, ?_, performed⟩
        rintro e rfl
        exact allowed e List.mem_cons_self
      obtain ⟨hI', safe'⟩ := safe.call step
      exact ih safe' hI' (fun e he => allowed e (List.mem_cons_of_mem _ he)) rest

end

/-! ### Programs that fail from outside only -/

section

variable (cfg : Settings) (A : Exn → Prop) (I : Db → Prop) {α β : Type}

/-- From a database that satisfies `P`, the program keeps `I`, fails from outside only, and what it
returns satisfies `φ`. -/
def Serves (P : Db → Prop) (p : Prog α) (φ : α → Db → Prop) : Prop :=
  (alone cfg A I).Triple (fun s => I s.db ∧ P s.db) p
    fun r s => I s.db ∧ (∀ e, r = .error e → A e) ∧ ∀ a, r = .ok a → φ a s.db

variable {cfg A I}

namespace Serves

variable {P : Db → Prop} {p : Prog α} {φ : α → Db → Prop}

theorem pure {a : α} (h : ∀ db, I db → P db → φ a db) :
  Serves cfg A I P (Pure.pure a) φ
  := by
  apply Contract.Triple.pure (stable_alone _)
  rintro s ⟨hI, hP⟩
  refine ⟨hI, nofun, ?_⟩
  rintro _ ⟨⟩
  exact h s.db hI hP

theorem raise {e : Exn} (h : A e) :
  Serves cfg A I P (.raise e : Prog α) φ
  := by
  apply Contract.Triple.raise (stable_alone _)
  rintro s ⟨hI, -⟩
  refine ⟨hI, ?_, nofun⟩
  rintro _ ⟨⟩
  exact h

theorem bind {ψ : β → Db → Prop} {f : α → Prog β} (h : Serves cfg A I P p φ)
    (hf : ∀ a, Serves cfg A I (φ a) (f a) ψ) :
  Serves cfg A I P (p >>= f) ψ
  := by
  apply Contract.Triple.bind h
  · intro a
    apply (hf a).conseq
    · rintro s ⟨hI, -, hφ⟩
      exact ⟨hI, hφ a rfl⟩
    · exact fun _ _ h => h
  · rintro e s ⟨hI, hA, -⟩
    refine ⟨hI, ?_, nofun⟩
    rintro _ ⟨⟩
    exact hA e rfl

theorem weaken {P' : Db → Prop} {ψ : α → Db → Prop} (h : Serves cfg A I P p φ)
    (hP : ∀ db, I db → P' db → P db) (hφ : ∀ a db, I db → φ a db → ψ a db) :
  Serves cfg A I P' p ψ
  := by
  apply Contract.Triple.conseq h
  · exact fun s hs => ⟨hs.1, hP s.db hs.1 hs.2⟩
  · exact fun r s hs => ⟨hs.1, hs.2.1, fun a ha => hφ a s.db hs.1 (hs.2.2 a ha)⟩

/-- A fact that does not depend on the database may be assumed. -/
theorem assume {fact : Prop} (h : fact → Serves cfg A I P p φ) :
  Serves cfg A I (fun db => fact ∧ P db) p φ
  := by
  constructor
  rintro s ⟨hI, hfact, hP⟩
  exact (h hfact).safe s ⟨hI, hP⟩

theorem attempt (h : Serves cfg A I P p φ) :
  Serves cfg A I P p.attempt fun r db => (∀ e, r = .error e → A e) ∧ ∀ a, r = .ok a → φ a db
  := by
  apply Contract.Triple.conseq (Contract.Triple.attempt h) (fun _ h => h)
  rintro r s ⟨r', rfl, hI, hA, hφ⟩
  refine ⟨hI, nofun, ?_⟩
  rintro _ ⟨⟩
  exact ⟨hA, hφ⟩

/-- An operation that does not touch the database and fails from outside only. -/
theorem perform {op : Op} {φ : op.Reply → Db → Prop}
    (outside : ∀ (s : Shared) answer (r : Except Exn op.Reply) (t : Shared),
      s.perform cfg none op answer = some (r, t) →
        t.db = s.db ∧ ∀ e, r = .error e → answer = .raised e)
    (h : ∀ a db, I db → P db → φ a db) :
  Serves cfg A I P (Knowledge.perform op) φ
  := by
  apply Contract.Triple.perform (stable_alone _)
  · rintro s r t ⟨hI, hP⟩ ⟨answer, allowed, performed⟩
    obtain ⟨same, fails⟩ := outside s answer r t performed
    change I t.db ∧ _
    rw [same]
    refine ⟨hI, hI, fun e he => allowed e (fails e he), fun a _ => h a s.db hI hP⟩
  · exact fun _ => stable_alone _

/-- A transaction that always commits. -/
theorem tx {t : Tx} {φ : t.Reply → Db → Prop}
    (commits : ∀ now db, I db → P db →
      ∃ r db', transact cfg now t db = .ok (r, db') ∧ I db' ∧ φ r db') :
  Serves cfg A I P (Knowledge.tx t) φ
  := by
  apply Contract.Triple.perform (stable_alone _)
  · rintro s r u ⟨hI, hP⟩ ⟨answer, allowed, performed⟩
    obtain ⟨reply, db, committed, hI', hφ⟩ := commits s.now s.db hI hP
    cases answer with
    | done =>
      simp only [Shared.perform, committed] at performed
      cases performed
      refine ⟨hI', hI', ?_, ?_⟩
      · rintro _ ⟨⟩
      · rintro _ ⟨⟩
        exact hφ
    | raised e =>
      obtain ⟨rfl, rfl⟩ := Shared.perform_raised performed
      refine ⟨hI, hI, ?_, ?_⟩
      · rintro _ ⟨⟩
        exact allowed e rfl
      · rintro _ ⟨⟩
    | denied => cases performed
    | reported model => cases performed
  · exact fun _ => stable_alone _

end Serves

/-- What is proved of a program holds of its runs. -/
theorem Serves.sound {P : Db → Prop} {p : Prog α} {φ : α → Db → Prop} {s t : Shared}
    {answers : List Answer} {r : Option (Except Exn α)} (h : Serves cfg A I P p φ)
    (hI : I s.db) (hP : P s.db) (allowed : ∀ e, .raised e ∈ answers → A e)
    (run : carryOut cfg answers p s = some (r, t)) :
  I t.db ∧ (∀ e, r = some (.error e) → A e) ∧ ∀ a, r = some (.ok a) → φ a t.db
  := by
  obtain ⟨hI', ends⟩ := carryOut_sound (h.safe s ⟨hI, hP⟩) hI allowed run
  refine ⟨hI', fun e he => ?_, fun a ha => ?_⟩
  · exact (ends _ he).2.1 e rfl
  · exact (ends _ ha).2.2 a rfl

end

/-! ### The batches -/

/-- A chunk has an embedding under some model. -/
def HasEmbedding (db : Db) (embeddingVersion : ℕ) (chunk : ChunkId) : Prop :=
  ∃ model, EmbeddingRepository.embedded db model embeddingVersion chunk

/-- Every active chunk of the version has an embedding. -/
def AllEmbedded (target : EmbedTarget) (db : Db) : Prop :=
  ∀ c ∈ ChunkRepository.activeForVersion db target.documentId target.docVersion,
    HasEmbedding db target.embeddingVersion c.id

/-- The columns of a document that an embedding does not write. -/
def Document.fixed (d : Document) : Document :=
  { d with status := .uploaded, error := none, updatedAt := 0 }

/-- What an embedding leaves as it is. -/
structure Keeps (db db' : Db) : Prop where
  knowledgeBases : db'.knowledgeBases = db.knowledgeBases
  documents : db'.documents.map Document.fixed = db.documents.map Document.fixed
  chunks : db'.chunks = db.chunks
  nextChunk : db'.nextChunk = db.nextChunk
  embeddings : ∀ e ∈ db.embeddings, e ∈ db'.embeddings

theorem Keeps.refl (db : Db) : Keeps db db :=
  ⟨rfl, rfl, rfl, rfl, fun _ h => h⟩

theorem Keeps.trans {db db' db'' : Db} (h : Keeps db db') (h' : Keeps db' db'') :
  Keeps db db''
  where
  knowledgeBases := h'.knowledgeBases.trans h.knowledgeBases
  documents := h'.documents.trans h.documents
  chunks := h'.chunks.trans h.chunks
  nextChunk := h'.nextChunk.trans h.nextChunk
  embeddings e he := h'.embeddings e (h.embeddings e he)

theorem HasEmbedding.keeps {db db' : Db} {embeddingVersion : ℕ} {chunk : ChunkId}
    (h : HasEmbedding db embeddingVersion chunk) (keeps : Keeps db db') :
  HasEmbedding db' embeddingVersion chunk
  := by
  obtain ⟨model, h⟩ := h
  exact ⟨model, embedded_iff.mpr (keeps.embeddings _ (embedded_iff.mp h))⟩

theorem AllEmbedded.keeps {target : EmbedTarget} {db db' : Db} (h : AllEmbedded target db)
    (keeps : Keeps db db') :
  AllEmbedded target db'
  := by
  intro c hc
  unfold ChunkRepository.activeForVersion at hc
  rw [keeps.chunks] at hc
  exact (h c hc).keeps keeps

/-- During the embedding of a document: the tables satisfy their constraints, what is not to be
written is as at first, and the document may still be embedded. -/
structure Embeddable (first : Db) (document : DocumentId) (db : Db) : Prop where
  keeps : Keeps first db
  wellFormed : WellFormed db
  status : ∀ d ∈ db.documents, d.id = document → d.status ∈ embeddableStatuses

/-- The chunks that are left to be embedded. -/
structure Pending (target : EmbedTarget) (pending : List (ChunkId × String)) (db : Db) : Prop where
  exist : ∀ chunk ∈ pending, ∃ c ∈ db.chunks, c.id = chunk.1
  nodup : (pending.map (·.1)).Nodup
  rest : ∀ c ∈ ChunkRepository.activeForVersion db target.documentId target.docVersion,
    c.id ∈ pending.map (·.1) ∨ HasEmbedding db target.embeddingVersion c.id

theorem mem_activeForVersion {db : Db} {document : DocumentId} {docVersion : ℕ} {c : Chunk} :
  c ∈ ChunkRepository.activeForVersion db document docVersion ↔
    c ∈ db.chunks ∧ c.documentId = document ∧ c.docVersion = docVersion ∧ c.superseded = false
  := by
  unfold ChunkRepository.activeForVersion
  rw [(List.perm_insertionSort _ _).mem_iff, List.mem_filter]
  simp [and_assoc]

/-- The chunks that are asked for are left. -/
theorem pending_of_query {target : EmbedTarget} {db : Db} (wellFormed : WellFormed db)
    (model : String) :
  Pending target (withoutEmbedding db
    (ChunkRepository.activeForVersion db target.documentId target.docVersion) model
    target.embeddingVersion) db
  where
  exist := by
    intro chunk hchunk
    obtain ⟨c, hc, rfl⟩ := List.mem_map.mp hchunk
    exact ⟨c, (mem_activeForVersion.mp (List.mem_of_mem_filter hc)).1, rfl⟩
  nodup := by
    unfold withoutEmbedding
    rw [List.map_map]
    have ids : (ChunkRepository.activeForVersion db target.documentId target.docVersion).Perm
        (db.chunks.filter _) := List.perm_insertionSort _ _
    apply List.Nodup.sublist (List.filter_sublist.map _)
    apply (ids.map (fun c : Chunk => c.id)).nodup_iff.mpr
    exact wellFormed.chunkIds.sublist (List.filter_sublist.map _)
  rest := by
    intro c hc
    by_cases has : EmbeddingRepository.embedded db model target.embeddingVersion c.id
    · exact .inr ⟨model, has⟩
    · left
      unfold withoutEmbedding EmbeddingRepository.chunksWithoutEmbedding
      rw [List.map_map]
      apply List.mem_map.mpr
      refine ⟨c, List.mem_filter.mpr ⟨hc, ?_⟩, rfl⟩
      apply decide_eq_true
      apply List.mem_filter.mpr
      exact ⟨List.mem_map_of_mem hc, by simpa using has⟩

/-- Chunks that are there, each once, are stored. -/
theorem upsert_isOk {db : Db} {chunks : List ChunkId}
    (exist : ∀ id ∈ chunks, ∃ c ∈ db.chunks, c.id = id) (distinct : chunks.Nodup) (model : String)
    (embeddingVersion : ℕ) :
  ∃ n db', EmbeddingRepository.upsert chunks model embeddingVersion db = .ok (n, db')
  := by
  unfold EmbeddingRepository.upsert
  rw [if_neg, if_neg (not_not.mpr distinct)]
  · exact ⟨_, _, rfl⟩
  · rw [Bool.not_eq_true, List.any_eq_false]
    intro id hid
    obtain ⟨c, hc, same⟩ := exist id hid
    simp only [Bool.not_eq_true', Bool.not_eq_false, List.any_eq_true, decide_eq_true_eq]
    exact ⟨c, hc, same⟩

/-- A batch is stored. -/
theorem Pending.upsert {target : EmbedTarget} {pending : List (ChunkId × String)} {db : Db}
    (h : Pending target pending db) (wellFormed : WellFormed db) (n : ℕ) (model : String) :
  ∃ count db', EmbeddingRepository.upsert ((pending.take n).map (·.1)) model
      target.embeddingVersion db = .ok (count, db') ∧
    Keeps db db' ∧ WellFormed db' ∧ db'.documents = db.documents ∧
    Pending target (pending.drop n) db'
  := by
  have exist : ∀ id ∈ (pending.take n).map (·.1), ∃ c ∈ db.chunks, c.id = id := by
    intro id hid
    obtain ⟨chunk, hchunk, rfl⟩ := List.mem_map.mp hid
    exact h.exist chunk (List.mem_of_mem_take hchunk)
  have distinct : ((pending.take n).map (·.1)).Nodup :=
    h.nodup.sublist ((List.take_sublist n pending).map _)
  have stored := @WellFormed.insert db wellFormed _ model target.embeddingVersion exist distinct
  obtain ⟨count, db', writes⟩ := upsert_isOk exist distinct model target.embeddingVersion
  obtain ⟨-, -, rfl⟩ := upsert_ok writes
  refine ⟨count, _, writes, ⟨rfl, rfl, rfl, rfl, fun e => List.mem_append_left _⟩, stored, rfl, ?_⟩
  refine ⟨fun chunk hchunk => h.exist chunk (List.mem_of_mem_drop hchunk),
    h.nodup.sublist ((List.drop_sublist n pending).map _), fun c hc => ?_⟩
  rcases h.rest c hc with left_ | ⟨model', has⟩
  · rw [← List.take_append_drop n pending, List.map_append, List.mem_append] at left_
    rcases left_ with now | later
    · right
      refine ⟨model, ?_⟩
      by_cases has : EmbeddingRepository.embedded db model target.embeddingVersion c.id
      · exact embedded_iff.mpr (List.mem_append_left _ (embedded_iff.mp has))
      · apply embedded_iff.mpr
        apply List.mem_append_right
        apply List.mem_map_of_mem (f := fun id => (⟨id, model, target.embeddingVersion⟩ : Embedding))
        exact List.mem_filter.mpr ⟨now, by simpa using has⟩
    · exact .inl later
  · exact .inr ⟨model', embedded_iff.mpr (List.mem_append_left _ (embedded_iff.mp has))⟩

namespace EmbeddingService

variable {cfg : Settings} {A : Exn → Prop} {first : Db} {document : DocumentId}
  {target : EmbedTarget}

theorem serves_embed {P : Db → Prop} {texts : List String} {model : String} {I : Db → Prop}
    {φ : String → Db → Prop} (h : ∀ reported db, I db → P db → φ reported db) :
  Serves cfg A I P (perform (.embed texts model)) φ
  := by
  apply Serves.perform _ h
  intro s answer r t performed
  cases answer with
  | reported model =>
    cases performed
    exact ⟨rfl, nofun⟩
  | raised e =>
    obtain ⟨rfl, rfl⟩ := Shared.perform_raised performed
    exact ⟨rfl, fun _ h => congrArg Answer.raised (Except.error.inj h)⟩
  | done => cases performed
  | denied => cases performed

theorem serves_resolvedModel {P : Db → Prop} {requested : String} {I : Db → Prop}
    {φ : String → Db → Prop} (h : ∀ model db, I db → P db → φ model db) :
  Serves cfg A I P (perform (.resolvedModel requested)) φ
  := by
  apply Serves.perform _ h
  intro s answer r t performed
  cases answer with
  | done =>
    cases performed
    exact ⟨rfl, nofun⟩
  | raised e =>
    obtain ⟨rfl, rfl⟩ := Shared.perform_raised performed
    exact ⟨rfl, fun _ h => congrArg Answer.raised (Except.error.inj h)⟩
  | reported model => cases performed
  | denied => cases performed

theorem serves_rememberResolution {P : Db → Prop} {requested reported : String} {I : Db → Prop}
    {φ : Unit → Db → Prop} (h : ∀ a db, I db → P db → φ a db) :
  Serves cfg A I P (perform (.rememberResolution requested reported)) φ
  := by
  apply Serves.perform _ h
  intro s answer r t performed
  cases answer with
  | done =>
    cases performed
    exact ⟨rfl, nofun⟩
  | raised e =>
    obtain ⟨rfl, rfl⟩ := Shared.perform_raised performed
    exact ⟨rfl, fun _ h => congrArg Answer.raised (Except.error.inj h)⟩
  | reported model => cases performed
  | denied => cases performed

theorem serves_unfinished {P : Db → Prop} {I : Db → Prop} {φ : Unit → Db → Prop} :
  Serves cfg A I P (perform .unfinished) φ
  := by
  constructor
  rintro s - t - r u ⟨answer, -, performed⟩
  cases answer <;> cases performed

theorem serves_pendingChunks (model : String) {P : Db → Prop} :
  Serves cfg A (Embeddable first document) P (pendingChunks target model) (Pending target)
  := by
  apply Serves.tx
  intro now db hI _
  exact ⟨_, db, rfl, hI, pending_of_query hI.wellFormed model⟩

/-- Of the loop: the chunks that are not left have an embedding. -/
theorem serves_embedBatches (batches : ℕ) (lookupModel : String)
    (pending : List (ChunkId × String)) (embedded : ℕ) :
  Serves cfg A (Embeddable first document) (Pending target pending)
    (embedBatches target batches lookupModel pending embedded) fun _ => AllEmbedded target
  := by
  induction batches generalizing lookupModel pending embedded with
  | zero =>
    cases pending with
    | nil =>
      rw [embedBatches]
      exact Serves.pure fun db _ done c hc => (done.rest c hc).resolve_left List.not_mem_nil
    | cons chunk chunks =>
      rw [embedBatches]
      apply Serves.bind (serves_unfinished (φ := fun _ _ => False))
      exact fun _ => Serves.pure fun _ _ h => h.elim
  | succ batches ih =>
    cases pending with
    | nil =>
      rw [embedBatches]
      exact Serves.pure fun db _ done c hc => (done.rest c hc).resolve_left List.not_mem_nil
    | cons chunk chunks =>
      rw [embedBatches]
      apply Serves.bind (serves_embed (φ := fun _ => Pending target (chunk :: chunks))
        fun _ _ _ h => h)
      intro model
      apply Serves.bind (φ := fun _ => Pending target ((chunk :: chunks).drop embedBatchSize))
      · apply Serves.tx
        intro now db hI left_
        obtain ⟨count, db', stored, keeps, wellFormed, documents, rest⟩ :=
          left_.upsert hI.wellFormed embedBatchSize model
        refine ⟨count, db', stored, ⟨hI.keeps.trans keeps, wellFormed, ?_⟩, rest⟩
        rw [documents]
        exact hI.status
      · intro _
        split
        · apply Serves.bind (serves_rememberResolution (φ := fun _ _ => True)
            fun _ _ _ _ => trivial)
          intro _
          apply Serves.bind (serves_pendingChunks model)
          intro pending
          exact ih _ pending _
        · exact ih _ _ _

theorem serves_embedPending (batches : ℕ) :
  Serves cfg A (Embeddable first document) (fun _ => True) (embedPending batches target)
    fun _ => AllEmbedded target
  := by
  apply Serves.bind (serves_resolvedModel (φ := fun _ _ => True) fun _ _ _ _ => trivial)
  intro lookupModel
  apply Serves.bind (serves_pendingChunks lookupModel)
  exact fun pending => serves_embedBatches batches lookupModel pending 0

/-! ### The task -/

theorem keeps_setStatus (now : ℕ) (u : StatusUpdate) (db : Db) :
  Keeps db (DocumentRepository.setStatus now u db).2
  where
  knowledgeBases := rfl
  documents := Table.map_update (p := u.hits) (f := u.write now) Document.fixed (fun _ => rfl)
    db.documents
  chunks := rfl
  nextChunk := rfl
  embeddings _ h := h

/-- What a document is found as, an embedding keeps apart from its status. -/
theorem getById_of_keeps {db : Db} {d : Document} (keeps : Keeps first db)
    (found : DocumentRepository.getById first document = some d) :
  ∃ d', DocumentRepository.getById db document = some d' ∧ d'.fixed = d.fixed
  := by
  have fixed (db : Db) : (DocumentRepository.getById db document).map Document.fixed =
      ((db.documents.map Document.fixed).filter (·.visible)).find? (·.id = document) := by
    rw [List.filter_map, List.find?_map]
    rfl
  have same := fixed db
  rw [keeps.documents, ← fixed first, found] at same
  obtain ⟨d', found', same⟩ := Option.map_eq_some_iff.mp same
  exact ⟨d', found', same⟩

theorem serves_setStatus {u : StatusUpdate} (hu : u.status ∈ embeddableStatuses) {P : Db → Prop}
    {φ : ℕ → Db → Prop} (h : ∀ now db, Embeddable first document db → P db →
      φ (db.documents.countP u.hits) (DocumentRepository.setStatus now u db).2) :
  Serves cfg A (Embeddable first document) P (tx (.setStatus u)) φ
  := by
  apply Serves.tx
  intro now db hI hP
  refine ⟨_, _, rfl, ⟨hI.keeps.trans (keeps_setStatus now u db), ?_, ?_⟩, h now db hI hP⟩
  · exact hI.wellFormed.effect (Effect.setStatus u : Effect now _ _ _)
  · intro d hd same
    obtain ⟨old, hold, rfl⟩ := Table.mem_update.mp hd
    by_cases hits : u.hits old
    · rw [if_pos hits]
      exact hu
    · rw [if_neg hits] at same ⊢
      exact hI.status old hold same

/-- The tables of the jobs are no concern of an assertion. -/
theorem serves_job {t : Tx} {P : Db → Prop} (change : Db → Db)
    (commits : ∀ now db, ∃ r, transact cfg now t db = .ok (r, change db))
    (data : ∀ db, (change db).data = db.data) (hP : ∀ db, P db → P (change db)) :
  Serves cfg A (Embeddable first document) P (tx t) fun _ => P
  := by
  apply Serves.tx
  intro now db hI h
  obtain ⟨r, committed⟩ := commits now db
  have same := data db
  have keeps : Keeps db (change db) :=
    { knowledgeBases := (congrArg Db.knowledgeBases same :)
      documents := (congrArg (fun db => db.documents.map Document.fixed) same :)
      chunks := (congrArg Db.chunks same :)
      nextChunk := (congrArg Db.nextChunk same :)
      embeddings := fun e he => (congrArg Db.embeddings same :).symm ▸ he }
  refine ⟨r, change db, committed, ⟨hI.keeps.trans keeps, hI.wellFormed.of_data same, ?_⟩, hP db h⟩
  have documents : (change db).documents = db.documents := (congrArg Db.documents same :)
  rw [documents]
  exact hI.status

theorem serves_beginJob (key : EtlKey) {P : Db → Prop}
    (hP : ∀ db, P db → P (EtlJobRepository.start key db)) :
  Serves cfg A (Embeddable first document) P (tx (.beginJob key)) fun _ => P
  := serves_job (EtlJobRepository.start key) (fun _ _ => ⟨(), rfl⟩) (fun _ => rfl) hP

theorem serves_finishJob (key : EtlKey) (status : EtlStatus) (error : Option ErrorPayload)
    {P : Db → Prop} (hP : ∀ db, P db → P (EtlJobRepository.finish key status error db)) :
  Serves cfg A (Embeddable first document) P (tx (.finishJob key status error)) fun _ => P
  := serves_job (EtlJobRepository.finish key status error) (fun _ _ => ⟨(), rfl⟩) (fun _ => rfl) hP

theorem serves_promote (embedded : ℕ) :
  Serves cfg A (Embeddable first document) (AllEmbedded target) (promote target embedded)
    fun _ => AllEmbedded target
  := by
  apply Serves.bind (serves_finishJob _ _ _ fun _ h => h)
  intro _
  apply Serves.bind (serves_setStatus (φ := fun _ => AllEmbedded target) (by simp [embeddableStatuses]) ?_)
  · intro promoted
    split <;> exact Serves.pure fun _ _ h => h
  · exact fun now db _ h => h.keeps (keeps_setStatus now _ db)

/-- The target is that of a document and a knowledge base. -/
structure IsTarget (target : EmbedTarget) (d : Document) (kb : KnowledgeBase) : Prop where
  documentId : target.documentId = d.id
  docVersion : target.docVersion = d.docVersion
  status : target.status ∈ embeddableStatuses
  embeddingVersion : target.embeddingVersion = kb.embeddingVersion

theorem serves_loadTarget {d : Document} {kb : KnowledgeBase}
    (found : DocumentRepository.getById first document = some d)
    (foundKb : KnowledgeBaseRepository.getById first d.kbId = some kb) :
  Serves cfg A (Embeddable first document) (fun _ => True) (tx (.loadEmbedTarget document))
    fun target _ => IsTarget target d kb ∧ True
  := by
  apply Serves.tx
  intro now db hI _
  obtain ⟨d', found', same⟩ := getById_of_keeps hI.keeps found
  obtain ⟨hmem, -, hid⟩ := getById_mem found'
  have kbId : d'.kbId = d.kbId := (congrArg Document.kbId same :)
  have kbFound : KnowledgeBaseRepository.getById db d'.kbId = some kb := by
    unfold KnowledgeBaseRepository.getById
    rw [hI.keeps.knowledgeBases, kbId]
    exact foundKb
  have loaded : loadEmbedTarget cfg db document = .ok
      { documentId := d'.id
        docVersion := d'.docVersion
        status := d'.status
        model := modelFor cfg kb.embeddingModel
        embeddingVersion := kb.embeddingVersion } := by
    rw [loadEmbedTarget, requireDocument, found']
    change (requireKnowledgeBase db d'.kbId).bind _ = _
    rw [requireKnowledgeBase, kbFound]
    rfl
  have isTarget : IsTarget
      { documentId := d'.id
        docVersion := d'.docVersion
        status := d'.status
        model := modelFor cfg kb.embeddingModel
        embeddingVersion := kb.embeddingVersion } d kb :=
    { documentId := (congrArg Document.id same :)
      docVersion := (congrArg Document.docVersion same :)
      status := hI.status d' hmem hid
      embeddingVersion := rfl }
  refine ⟨_, db, ?_, hI, isTarget, trivial⟩
  rw [transact, loaded]
  rfl

/-- An embedding that nothing interferes with and that no permanent failure of the provider ends has
given the active chunks embeddings when it returns. -/
theorem serves_embedDocument (batches : ℕ) {d : Document} {kb : KnowledgeBase}
    (found : DocumentRepository.getById first document = some d)
    (foundKb : KnowledgeBaseRepository.getById first d.kbId = some kb)
    (transient : ∀ e, A e → e.provider?.any (!·.retryable) = false) :
  Serves cfg A (Embeddable first document) (fun _ => True) (embedDocument batches document)
    fun _ db => ∀ c ∈ ChunkRepository.activeForVersion db document d.docVersion,
      HasEmbedding db kb.embeddingVersion c.id
  := by
  apply Serves.bind (serves_loadTarget found foundKb)
  intro target
  apply Serves.assume
  intro isTarget
  have id : d.id = document := (getById_mem found).2.2
  have all (db : Db) (h : AllEmbedded target db) :
      ∀ c ∈ ChunkRepository.activeForVersion db document d.docVersion,
        HasEmbedding db kb.embeddingVersion c.id := by
    rw [← id, ← isTarget.documentId, ← isTarget.docVersion, ← isTarget.embeddingVersion]
    exact h
  rw [if_neg (not_not.mpr isTarget.status)]
  apply Serves.bind (serves_beginJob _ fun _ h => h)
  intro _
  apply Serves.bind (serves_setStatus (φ := fun moved _ => moved ≠ 0 ∧ True) (by simp [embeddableStatuses]) ?_)
  · intro moved
    apply Serves.assume
    intro isMoved
    rw [if_neg isMoved]
    apply Serves.bind (serves_embedPending batches).attempt
    intro r
    cases r with
    | ok embedded =>
      apply (serves_promote embedded).weaken
      · exact fun _ _ h => h.2 embedded rfl
      · exact fun _ db _ h => all db h
    | error e =>
      have fails : Serves cfg A (Embeddable first document) (fun _ => A e ∧ True)
          (embeddingFailed target e) fun _ db =>
            ∀ c ∈ ChunkRepository.activeForVersion db document d.docVersion,
              HasEmbedding db kb.embeddingVersion c.id := by
        apply Serves.assume
        intro hA
        unfold embeddingFailed
        rw [if_neg (by rw [transient e hA]; exact Bool.false_ne_true)]
        apply Serves.bind (serves_finishJob _ _ _ fun _ h => h)
        exact fun _ => Serves.raise hA
      apply fails.weaken
      · exact fun _ _ h => ⟨h.1 e rfl, trivial⟩
      · exact fun _ _ _ h => h
  · intro now db hI _
    refine ⟨?_, trivial⟩
    obtain ⟨d', found', same⟩ := getById_of_keeps hI.keeps found
    obtain ⟨hmem, visible, hid⟩ := getById_mem found'
    apply Nat.pos_iff_ne_zero.mp
    apply List.countP_pos_iff.mpr
    refine ⟨d', hmem, ?_⟩
    have version : d'.docVersion = target.docVersion :=
      (congrArg Document.docVersion same :).trans isTarget.docVersion.symm
    have name : d'.id = target.documentId := by
      rw [hid, isTarget.documentId, id]
    have status := hI.status d' hmem hid
    simp [StatusUpdate.hits, visible, name, version, status]

end EmbeddingService

end Lumina.Knowledge
