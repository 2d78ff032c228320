import Lumina.Knowledge.Rechunk

/-!
# The rounds of a reindex that cuts anew

Every round keeps to the discipline of cutting anew.  What a round knows of its job between two
operations is `Remaining`: the job has begun, and of its documents only some may not have been
handled yet.
-/

namespace Lumina.Knowledge

open Interleaving Transition
open Fallible (ok_of_bind)

/-! ### The documents of a batch -/

section

variable {db : Db} {kb : KbId} {after : Option DocumentId} {limit : ℕ}

/-- The ids of the documents after the cursor. -/
def idsAfter (db : Db) (kb : KbId) (after : Option DocumentId) : List DocumentId :=
  (((DocumentRepository.queryset db).filter fun d => d.kbId = kb && after.all (· < d.id)).map
    (·.id)).insertionSort (· ≤ ·)

theorem map_id_forKbAfter :
  (DocumentRepository.forKbAfter db kb after limit).map (·.id) = (idsAfter db kb after).take limit
  := by
  unfold DocumentRepository.forKbAfter idsAfter
  dsimp only
  rw [List.map_take, List.map_insertionSort (r := fun a b : Document => a.id ≤ b.id)
    (s := (· ≤ ·))]
  exact fun _ _ _ _ => Iff.rfl

theorem sorted_idsAfter (h : WellFormed db) (kb : KbId) (after : Option DocumentId) :
  (idsAfter db kb after).Pairwise (· < ·)
  := by
  have sorted : (idsAfter db kb after).Pairwise (· ≤ ·) := List.pairwise_insertionSort _ _
  have distinct : (idsAfter db kb after).Nodup := by
    apply (List.perm_insertionSort _ _).nodup_iff.mpr
    apply List.Sublist.nodup _ h.documentIds
    unfold DocumentRepository.queryset
    rw [List.filter_filter]
    apply List.filter_sublist.map
  apply (sorted.and distinct).imp
  rintro a b ⟨hle, hne⟩
  apply lt_of_le_of_ne hle hne

theorem mem_idsAfter {d : Document} (hd : d ∈ db.documents) (visible : d.visible)
    (hkb : d.kbId = kb) (beyond : ∀ c, after = some c → c < d.id) :
  d.id ∈ idsAfter db kb after
  := by
  unfold idsAfter
  rw [List.mem_insertionSort, List.mem_map]
  refine ⟨d, ?_, rfl⟩
  unfold DocumentRepository.queryset
  rw [List.mem_filter, List.mem_filter, Bool.and_eq_true, decide_eq_true_eq]
  refine ⟨⟨hd, visible⟩, hkb, ?_⟩
  cases after with
  | none => rfl
  | some c => apply decide_eq_true (beyond c rfl)

/-- What is not in the first part of a sorted list is beyond all that is. -/
theorem mem_take_or_beyond {ids : List ℕ} {n : ℕ} (hn : 0 < n) (sorted : ids.Pairwise (· < ·))
    {a : ℕ} (ha : a ∈ ids) :
  a ∈ ids.take n ∨ (ids.take n ≠ [] ∧ ∀ b ∈ ids.take n, b < a)
  := by
  rw [← List.take_append_drop n ids] at ha sorted
  obtain first | later := List.mem_append.mp ha
  · left
    apply first
  · right
    constructor
    · intro empty
      rw [List.take_eq_nil_iff] at empty
      obtain zero | none := empty
      · omega
      · rw [none, List.drop_nil] at later
        cases later
    · intro b hb
      apply (List.pairwise_append.mp sorted).2.2 b hb a later

end

/-- A reingest of a document that has been listed handles it. -/
theorem handled_of_reingest {now : ℕ} {db db' : Db} {kb : KbId} {x : DocumentId × ℕ}
    {staleBefore n : ℕ} (hdb : WellFormed db) (listed : Listed db kb x)
    (h : reingest now db x.1 staleBefore = .ok (n, db')) :
  Handled db' x
  := by
  have grows : Grows db db' := effect_grows hdb (effect_reingest h)
  obtain ⟨d, hd, hid, -, version⟩ := listed
  obtain ⟨found, hfound, h⟩ := ok_of_bind h
  split_ifs at h
  cases h
  by_cases visible : d.visible
  · have hp : d.visible && d.id = x.1 := by
      rw [Bool.and_eq_true, decide_eq_true_eq]
      exact ⟨visible, hid⟩
    have same : d = found := hdb.eq_of_found (requireDocument_ok hfound) hd hp
    refine ⟨_, Table.mem_update.mpr ⟨d, hd, rfl⟩, ?_, ?_⟩
    · rw [if_pos hp]
      apply hid
    · right
      rw [if_pos hp, ← same]
      apply Nat.lt_succ_of_le version
  · have handled : Handled db x := ⟨d, hd, hid, .inl (eq_false_of_ne_true visible)⟩
    apply handled.grows grows

/-! ### What a round knows -/

section

variable (base : JobId → List (DocumentId × ℕ)) (id : JobId)

/-- The job has begun, and of its documents only those of `G` may not have been handled. -/
def Remaining (G : DocumentId × ℕ → Prop) (s : Shared) : Prop :=
  ∃ job, KbReindexJobRepository.getById s.db id = some job ∧ job.status ≠ .pending ∧
    (job.rechunk → ∀ x ∈ base id, Handled s.db x ∨ G x)

/-- A row of the job that has been read. -/
structure View (view : KbReindexJob) (s : Shared) : Prop where
  same : view.id = id
  row : ∃ job, KbReindexJobRepository.getById s.db id = some job ∧ job.kbId = view.kbId ∧
    job.rechunk = view.rechunk ∧ (view.status ≠ .pending → job.status ≠ .pending)
  reached : view.status ≠ .pending → view.status ≠ .rechunking →
    Remaining base id (fun _ => False) s

/-- The job is not one that cuts anew. -/
def Exempt (s : Shared) : Prop :=
  ∃ job, KbReindexJobRepository.getById s.db id = some job ∧ job.rechunk = false

/-- An outcome of a part of a round: an exception leaves it only if the job is exempt. -/
def Outcome {α : Type} (φ : α → Shared → Prop) : Except Exn α → Shared → Prop
  | .ok a, s => φ a s
  | .error _, s => Exempt id s

variable (cfg : Settings) (message : Message)

/-- A part of a round that leads from one assertion to another one. -/
def Works {α : Type} (P : Shared → Prop) (p : Prog α) (φ : α → Shared → Prop) : Prop :=
  ((rechunking cfg base).contract (some message)).Triple P p (Outcome id φ)

/-- An assertion that the other activities keep. -/
def Steady (P : Shared → Prop) : Prop :=
  ∀ s t, P s → Onward s.db t.db → P t

end

section

variable {base : JobId → List (DocumentId × ℕ)} {id : JobId} {cfg : Settings} {message : Message}
  {P : Shared → Prop}

theorem Remaining.mono {G G' : DocumentId × ℕ → Prop} {s : Shared} (h : Remaining base id G s)
    (hG : ∀ x ∈ base id, G x → G' x) :
  Remaining base id G' s
  := by
  obtain ⟨job, hjob, begun, handled⟩ := h
  refine ⟨job, hjob, begun, ?_⟩
  intro rechunk x hx
  obtain done | left := handled rechunk x hx
  · left
    apply done
  · right
    apply hG x hx left

theorem steady_remaining (G : DocumentId × ℕ → Prop) : Steady (Remaining base id G) := by
  rintro s t ⟨job, hjob, begun, handled⟩ later
  obtain ⟨job', hjob', -, rechunk', begun'⟩ := later.jobs id job hjob
  refine ⟨job', hjob', begun' begun, ?_⟩
  rw [rechunk']
  intro rechunk x hx
  obtain done | left := handled rechunk x hx
  · left
    apply done.grows later.grows
  · right
    apply left

theorem steady_exempt : Steady (Exempt id) := by
  rintro s t ⟨job, hjob, exempt⟩ later
  obtain ⟨job', hjob', -, rechunk', -⟩ := later.jobs id job hjob
  exact ⟨job', hjob', rechunk'.trans exempt⟩

theorem steady_view (view : KbReindexJob) : Steady (View base id view) := by
  intro s t h later
  constructor
  · apply h.same
  · obtain ⟨job, hjob, hkb, rechunk, begun⟩ := h.row
    obtain ⟨job', hjob', hkb', rechunk', begun'⟩ := later.jobs id job hjob
    exact ⟨job', hjob', hkb'.trans hkb, rechunk'.trans rechunk, fun b => begun' (begun b)⟩
  · exact fun b b' => steady_remaining _ s t (h.reached b b') later

/-- The job is there. -/
def Present (id : JobId) (s : Shared) : Prop :=
  ∃ job, KbReindexJobRepository.getById s.db id = some job

theorem steady_present : Steady (Present id) := by
  rintro s t ⟨job, hjob⟩ later
  obtain ⟨job', hjob', -⟩ := later.jobs id job hjob
  exact ⟨job', hjob'⟩

theorem Remaining.present {G : DocumentId × ℕ → Prop} {s : Shared} (h : Remaining base id G s) :
  Present id s
  := by
  obtain ⟨job, hjob, -⟩ := h
  exact ⟨job, hjob⟩

theorem View.present {view : KbReindexJob} {s : Shared} (h : View base id view s) :
  Present id s
  := by
  obtain ⟨job, hjob, -⟩ := h.row
  exact ⟨job, hjob⟩

theorem Exempt.present {s : Shared} (h : Exempt id s) : Present id s := by
  obtain ⟨job, hjob, -⟩ := h
  exact ⟨job, hjob⟩

/-- An update that writes neither the status nor the cursor. -/
theorem Admissible.progress {db : Db} {kb : KbId} {documents : List (DocumentId × ℕ)}
    {u : JobUpdate} (status : u.status = none) (cursor : u.rechunkCursor = none) :
  Admissible db kb documents u
  := by
  constructor
  · exact fun written => absurd status written
  · intro c hc
    rw [cursor] at hc
    cases hc
  · rw [status]
    rintro (⟨⟨⟩⟩ | ⟨⟨⟩⟩)
  · rw [status]
    rintro ⟨⟩

/-- What a round may write that knows what remains. -/
theorem Remaining.admissible {G : DocumentId × ℕ → Prop} {s : Shared} {job : KbReindexJob}
    {u : JobUpdate} (h : Remaining base id G s) (inv : Rechunking base s.db)
    (hjob : KbReindexJobRepository.getById s.db id = some job) (rechunk : job.rechunk)
    (cursor : ∀ c, u.rechunkCursor = some c → ∀ x ∈ base id, x.1 ≤ c → ¬G x)
    (done : u.status = some .embedding ∨ u.status = some .completed → ∀ x ∈ base id, ¬G x)
    (alive : u.status ≠ some .failed) :
  Admissible s.db job.kbId (base id) u
  := by
  obtain ⟨row, hrow, begun, handled⟩ := h
  rw [hjob] at hrow
  cases hrow
  constructor
  · exact fun _ => (inv.rows id job hjob rechunk).listed begun
  · intro c hc x hx hle
    apply (handled rechunk x hx).resolve_right (cursor c hc x hx hle)
  · intro entered x hx
    apply (handled rechunk x hx).resolve_right (done entered x hx)
  · apply alive

/-! ### The rules -/

theorem steady_outcome {α : Type} {φ : α → Shared → Prop} (hφ : ∀ a, Steady (φ a))
    (r : Except Exn α) :
  Steady (Outcome id φ r)
  := by
  cases r with
  | ok a => apply hφ
  | error e => apply steady_exempt

theorem Works.conseq {α : Type} {P' : Shared → Prop} {p : Prog α} {φ φ' : α → Shared → Prop}
    (h : Works base id cfg message P p φ) (hP : ∀ s, P' s → P s)
    (hφ : ∀ a s, φ a s → φ' a s) :
  Works base id cfg message P' p φ'
  := by
  apply Contract.Triple.conseq h hP
  rintro (e | a) s hs
  · apply hs
  · apply hφ a s hs

theorem Works.pure {α : Type} {a : α} {φ : α → Shared → Prop} (hP : Steady P)
    (hφ : ∀ s, P s → φ a s) :
  Works base id cfg message P (.pure a) φ
  := by
  unfold Works
  apply Contract.Triple.pure
  · exact hP
  · exact hφ

theorem Works.bind {α β : Type} {p : Prog α} {f : α → Prog β} {φ : α → Shared → Prop}
    {ψ : β → Shared → Prop} (h : Works base id cfg message P p φ)
    (hf : ∀ a, Works base id cfg message (φ a) (f a) ψ) :
  Works base id cfg message P (p >>= f) ψ
  := by
  apply Contract.Triple.bind h hf
  exact fun _ _ hs => hs

/-- A fact that does not depend on the state may be assumed. -/
theorem Works.assume {α : Type} {p : Prog α} {φ : α → Shared → Prop} {F : Prop}
    (h : F → Works base id cfg message P p φ) :
  Works base id cfg message (fun s => F ∧ P s) p φ
  := by
  apply Contract.Triple.assume h

/-- A part of an assertion that does not depend on the state may be used from the beginning. -/
theorem Works.of_fact {α : Type} {p : Prog α} {φ : α → Shared → Prop} {F : Prop}
    (hF : ∀ s, P s → F) (h : F → Works base id cfg message P p φ) :
  Works base id cfg message P p φ
  := by
  constructor
  intro s hs
  apply (h (hF s hs)).safe s hs

/-! ### The operations of a round -/

/-- The operations without a transaction that a reindex performs. -/
def Op.isPlain : Op → Bool
  | .clock | .embed _ _ | .enqueue _ _ _ => true
  | _ => false

/-- They fail only when an exception comes from outside. -/
theorem Shared.perform_plain {me : Option Message} {op : Op} {answer : Answer} {s t : Shared}
    {e : Exn} (hop : op.isPlain) (h : s.perform cfg me op answer = some (.error e, t)) :
  ∃ e', answer = .raised e'
  := by
  cases answer with
  | raised e' => exact ⟨e', rfl⟩
  | _ =>
    cases op with
    | enqueue task sentFor delay =>
      simp only [Shared.perform] at h
      try split at h
      all_goals try split at h
      all_goals cases h
    | clock | embed _ _ => cases h
    | _ => cases hop

/-- An operation that is not disturbed for a job that cuts anew fails only for an exempt job. -/
theorem exempt_of_error {op : Op} {answer : Answer} {s t : Shared}
    (task : message.task = .reindexKb id) (present : Present id s) (later : Onward s.db t.db)
    (admitted : RechunkUndisturbed (some message) op answer s)
    (fine : ¬Undisturbed op answer s) :
  Exempt id t
  := by
  obtain ⟨job, hjob⟩ := present
  apply steady_exempt s t _ later
  refine ⟨job, hjob, ?_⟩
  rw [← Bool.not_eq_true]
  intro rechunk
  apply fine
  apply admitted message id job rfl task hjob rechunk

/-- What is known before an operation without a transaction is known after it, also when it has
failed. -/
theorem triple_plain {op : Op} (task : message.task = .reindexKb id) (hop : op.isPlain)
    (hP : Steady P) (present : ∀ s, P s → Present id s) :
  ((rechunking cfg base).contract (some message)).Triple P (perform op)
    fun r s => P s ∧ ∀ e, r = .error e → Exempt id s
  := by
  apply Contract.Triple.perform
  · exact hP
  · rintro s r t hs ⟨⟨running, inv⟩, answer, ⟨admitted, -⟩, hperform⟩
    have spares : op.SparesJobs := by
      rintro x db rfl
      cases hop
    have kept := Rechunking.spare inv spares hperform
    refine ⟨kept, hP s t hs kept.1, ?_⟩
    rintro e rfl
    apply exempt_of_error task (present s hs) kept.1 admitted
    intro undisturbed
    obtain ⟨e', raised⟩ := Shared.perform_plain hop hperform
    apply undisturbed.answers e' raised
  · rintro r s t ⟨hs, exempt⟩ later
    exact ⟨hP s t hs later, fun e he => steady_exempt s t (exempt e he) later⟩

theorem works_plain {op : Op} (task : message.task = .reindexKb id) (hop : op.isPlain)
    (hP : Steady P) (present : ∀ s, P s → Present id s) :
  Works base id cfg message P (perform op) fun _ => P
  := by
  apply (triple_plain task hop hP present).conseq
  · exact fun _ hs => hs
  · rintro (e | a) s ⟨hs, exempt⟩
    · apply exempt e rfl
    · apply hs

/-- The rule of a transaction of a round. -/
theorem works_tx {x : Tx} {φ : x.Reply → Shared → Prop} (task : message.task = .reindexKb id)
    (hP : Steady P) (hφ : ∀ a, Steady (φ a)) (present : ∀ s, P s → Present id s)
    (begun : (Op.tx x).KeepsBegun)
    (hw : ∀ s, P s → Rechunking base s.db → BeginsListed base (.tx x) .done s →
      ∀ w ∈ x.jobWrites s.db, ∀ job, KbReindexJobRepository.getById s.db w.1 = some job →
        job.rechunk → Admissible s.db job.kbId (base w.1) w.2)
    (ok : ∀ s t a, P s → Rechunking base s.db → Onward s.db t.db →
      transact cfg s.now x s.db = .ok (a, t.db) → φ a t)
    (error : ∀ s e, P s → Rechunking base s.db → Undisturbed (.tx x) .done s →
      transact cfg s.now x s.db ≠ .error e) :
  Works base id cfg message P (tx x) φ
  := by
  unfold Works
  apply Contract.Triple.perform
  · exact hP
  · rintro s r t hs ⟨⟨running, inv⟩, answer, ⟨admitted, listed⟩, hperform⟩
    have kept : Onward s.db t.db ∧ Rechunking base t.db := by
      apply Rechunking.perform inv begun hperform
      rintro _ ⟨⟩ rfl
      apply hw s hs inv listed
    refine ⟨kept, ?_⟩
    cases r with
    | ok a => apply ok s t a hs inv kept.1 (Shared.perform_tx hperform)
    | error e =>
      apply exempt_of_error task (present s hs) kept.1 admitted
      intro undisturbed
      obtain ⟨e', raised⟩ | ⟨rfl, failed⟩ := Shared.perform_tx_error hperform
      · apply undisturbed.answers e' raised
      · apply error s e hs inv undisturbed failed
  · apply steady_outcome hφ

/-- A transaction that writes no job and does not fail. -/
theorem works_read {x : Tx} {φ : x.Reply → Shared → Prop} (task : message.task = .reindexKb id)
    (hP : Steady P) (hφ : ∀ a, Steady (φ a)) (present : ∀ s, P s → Present id s)
    (spares : (Op.tx x).SparesJobs)
    (ok : ∀ s t a, P s → Rechunking base s.db → Onward s.db t.db →
      transact cfg s.now x s.db = .ok (a, t.db) → φ a t)
    (error : ∀ s e, P s → transact cfg s.now x s.db ≠ .error e) :
  Works base id cfg message P (tx x) φ
  := by
  apply works_tx task hP hφ present spares.keepsBegun
  · intro s _ _ _ w hw
    rw [spares x s.db rfl] at hw
    cases hw
  · apply ok
  · exact fun s e hs _ _ => error s e hs

/-- A row that is read is a view of the job. -/
theorem view_of_row {view : KbReindexJob} {s : Shared} (inv : Rechunking base s.db)
    (h : KbReindexJobRepository.getById s.db id = some view) :
  View base id view s
  := by
  constructor
  · have found := List.find?_some h
    exact of_decide_eq_true found
  · exact ⟨view, h, rfl, rfl, fun begun => begun⟩
  · intro begun passed
    refine ⟨view, h, begun, ?_⟩
    intro rechunk x hx
    have row := inv.rows id view h rechunk
    left
    cases hstatus : view.status with
    | pending => exact absurd hstatus begun
    | rechunking => exact absurd hstatus passed
    | embedding => apply row.done (.inl hstatus) x hx
    | completed => apply row.done (.inr hstatus) x hx
    | failed => exact absurd hstatus row.alive

theorem loadReindexJob_ok {db : Db} {view : KbReindexJob}
    (h : loadReindexJob db id = .ok view) :
  KbReindexJobRepository.getById db id = some view
  := by
  unfold loadReindexJob at h
  split at h
  · cases h
  · cases h
    assumption

/-- The row of the job is read; what is known stays known. -/
theorem works_load (task : message.task = .reindexKb id) (hP : Steady P)
    (present : ∀ s, P s → Present id s) (begun : Prop)
    (hbegun : begun → ∀ s, P s → Remaining base id (fun _ => True) s) :
  Works base id cfg message P (KbReindexService.load id) fun view s =>
    (begun → view.status ≠ .pending) ∧ View base id view s ∧ P s
  := by
  apply works_read task hP _ present
  · rintro x db ⟨⟩
    rfl
  · intro s t view hs inv later hload
    obtain ⟨view', hview, hpair⟩ := ok_of_bind hload
    obtain ⟨rfl, hdb⟩ := Prod.mk.inj (Except.ok.inj hpair)
    have found : KbReindexJobRepository.getById s.db id = some view' := loadReindexJob_ok hview
    refine ⟨?_, ?_, hP s t hs later⟩
    · intro b
      obtain ⟨job, hjob, status, -⟩ := hbegun b s hs
      rw [found] at hjob
      cases hjob
      apply status
    · apply steady_view view' s t _ later
      apply view_of_row inv found
  · intro s e hs failed
    obtain ⟨job, hjob⟩ := present s hs
    simp only [transact, loadReindexJob, hjob] at failed
    cases failed
  · intro view s t hs later
    exact ⟨hs.1, steady_view view s t hs.2.1 later, hP s t hs.2.2 later⟩

/-! ### The embedding phase -/

open KbReindexService

/-- The missing chunks are different ones. -/
theorem nodup_missing {db : Db} (h : WellFormed db) (job : KbReindexJob) :
  ((withoutEmbedding db (ChunkRepository.forRetrieval db job.kbId) job.targetModel
    job.targetEmbeddingVersion).map (·.1)).Nodup
  := by
  unfold withoutEmbedding ChunkRepository.forRetrieval
  dsimp only
  rw [List.map_map]
  have keys : ((ChunkRepository.forRetrieval db job.kbId).map (·.id)).Nodup := by
    unfold ChunkRepository.forRetrieval
    apply ((List.perm_insertionSort _ _).map _).nodup_iff.mpr
    apply List.Sublist.nodup _ h.chunkIds
    apply List.filter_sublist.map
  apply List.Sublist.nodup _ keys
  apply List.filter_sublist.map

theorem works_missingChunks (task : message.task = .reindexKb id) (hP : Steady P)
    (present : ∀ s, P s → Present id s) (job : KbReindexJob) :
  Works base id cfg message P (tx (.missingChunks job)) fun pending s =>
    (pending.map (·.1)).Nodup ∧ P s
  := by
  apply works_read task hP _ present
  · rintro x db ⟨⟩
    rfl
  · intro s t pending hs inv later hquery
    obtain ⟨rfl, -⟩ := Prod.mk.inj (Except.ok.inj hquery)
    exact ⟨nodup_missing inv.wellFormed job, hP s t hs later⟩
  · intro s e _ failed
    cases failed
  · exact fun pending s t hs later => ⟨hs.1, hP s t hs.2 later⟩

/-- Different chunks that are still there can be given embeddings. -/
theorem upsert_of_exist {db : Db} {chunks : List ChunkId} (model : String) (embeddingVersion : ℕ)
    (exist : ∀ id ∈ chunks, ∃ c ∈ db.chunks, c.id = id) (distinct : chunks.Nodup) :
  ∃ n db', EmbeddingRepository.upsert chunks model embeddingVersion db = .ok (n, db')
  := by
  unfold EmbeddingRepository.upsert
  rw [if_neg, if_neg (not_not.mpr distinct)]
  · exact ⟨_, _, rfl⟩
  · rw [Bool.not_eq_true, List.any_eq_false]
    intro id hid
    rw [Bool.not_eq_true, Bool.not_eq_false', List.any_eq_true]
    obtain ⟨c, hc, hcid⟩ := exist id hid
    exact ⟨c, hc, decide_eq_true hcid⟩

/-- A batch of different chunks that are still there is stored. -/
theorem upsertForJob_ok {db : Db} {job row : KbReindexJob} {chunks : List ChunkId}
    {reported : String} {e : Exn} (hrow : KbReindexJobRepository.getById db job.id = some row)
    (exist : ∀ id ∈ chunks, ∃ c ∈ db.chunks, c.id = id) (distinct : chunks.Nodup) :
  upsertForJob db job chunks reported ≠ .error e
  := by
  obtain ⟨n, db', hupsert⟩ := upsert_of_exist
    (if reported = "" then job.targetModel else reported) job.targetEmbeddingVersion exist distinct
  obtain ⟨-, -, rfl⟩ := upsert_ok hupsert
  intro failed
  unfold upsertForJob at failed
  dsimp only at failed
  rw [hupsert] at failed
  simp only [bind, Except.bind] at failed
  split at failed
  · unfold loadReindexJob KbReindexJobRepository.update KbReindexJobRepository.getById at failed
    dsimp only at failed
    unfold KbReindexJobRepository.getById at hrow
    rw [Table.find?_update, hrow] at failed
    · cases failed
    · exact fun _ => rfl
  · cases failed

/-- The row that is read after a batch is that of the job. -/
theorem upsertForJob_id {db db' : Db} {job job' : KbReindexJob} {chunks : List ChunkId}
    {reported : String} (h : upsertForJob db job chunks reported = .ok (job', db')) :
  job'.id = job.id
  := by
  obtain ⟨⟨n, stored⟩, -, h⟩ := ok_of_bind h
  dsimp only at h
  split at h
  · obtain ⟨row, hload, h⟩ := ok_of_bind h
    cases h
    unfold loadReindexJob at hload
    split at hload
    · cases hload
    next found =>
      cases hload
      have hid := List.find?_some found
      exact of_decide_eq_true hid
  · cases h
    rfl

theorem works_upsertForJob (task : message.task = .reindexKb id) (hP : Steady P)
    (present : ∀ s, P s → Present id s) {job : KbReindexJob} (same : job.id = id)
    {chunks : List ChunkId} (distinct : chunks.Nodup) (reported : String) :
  Works base id cfg message P (tx (.upsertForJob job chunks reported)) fun job s =>
    job.id = id ∧ P s
  := by
  apply works_tx task hP _ present
  · rintro _ _ ⟨⟩
  · intro s hs _ _ w hw row _ _
    simp only [Tx.jobWrites] at hw
    split at hw
    · rw [List.mem_singleton.mp hw]
      apply Admissible.progress rfl rfl
    · cases hw
  · intro s t job' hs inv later hupsert
    exact ⟨(upsertForJob_id hupsert).trans same, hP s t hs later⟩
  · intro s e hs inv undisturbed
    obtain ⟨row, hrow⟩ := present s hs
    rw [← same] at hrow
    apply upsertForJob_ok hrow (undisturbed.chunks job chunks reported rfl) distinct
  · exact fun job s t hs later => ⟨hs.1, hP s t hs.2 later⟩

theorem works_embedEach (task : message.task = .reindexKb id) (hP : Steady P)
    (present : ∀ s, P s → Present id s) {batches : List (List (ChunkId × String))}
    (distinct : (batches.flatten.map (·.1)).Nodup) {job : KbReindexJob} (same : job.id = id) :
  Works base id cfg message P (embedEach job batches) fun _ => P
  := by
  induction batches generalizing job with
  | nil => exact Works.pure hP fun _ hs => hs
  | cons batch rest ih =>
    rw [List.flatten_cons, List.map_append, List.nodup_append] at distinct
    apply Works.bind (works_plain task rfl hP present)
    intro model
    apply Works.bind (works_upsertForJob task hP present same distinct.1 model)
    intro job'
    apply Works.assume
    intro same'
    apply ih distinct.2.1 same'

/-- What closing a round writes. -/
theorem closeRound_writes {db : Db} {job : KbReindexJob} {model : String} :
  ∀ w ∈ (Tx.closeRound job model).jobWrites db, w.1 = job.id ∧ w.2.status ≠ some .failed
  := by
  intro w hw
  simp only [Tx.jobWrites] at hw
  obtain rfl | hw := List.mem_cons.mp hw
  · constructor
    · rfl
    · rintro ⟨⟩
  · split at hw
    · rw [List.mem_singleton.mp hw]
      constructor
      · rfl
      · rintro ⟨⟩
    · cases hw

/-- A round of the embedding phase, of a job whose documents have all been handled. -/
theorem works_advanceEmbedding (task : message.task = .reindexKb id) {view : KbReindexJob}
    (same : view.id = id) :
  Works base id cfg message (Remaining base id fun _ => False) (advanceEmbedding view)
    fun _ => Remaining base id fun _ => False
  := by
  have steady : Steady (Remaining base id fun _ => False) := steady_remaining _
  have present : ∀ s, Remaining base id (fun _ => False) s → Present id s :=
    fun _ hs => hs.present
  apply Works.bind
  · apply Works.bind (works_missingChunks task steady present view)
    intro pending
    apply Works.assume
    intro distinct
    apply works_embedEach task steady present _ same
    rw [flatten_batches]
    apply distinct
  · intro _
    apply Works.bind
    · apply works_tx (φ := fun _ => Remaining base id fun _ => False) task steady _ present
      · rintro _ _ ⟨⟩
      · intro s hs inv _ w hw job hjob rechunk
        obtain ⟨hid, alive⟩ := closeRound_writes w hw
        rw [hid, same] at hjob ⊢
        apply hs.admissible inv hjob rechunk
        · exact fun _ _ _ _ _ h => h
        · exact fun _ _ _ h => h
        · apply alive
      · exact fun s t _ hs _ later _ => steady s t hs later
      · intro s e _ _ _ failed
        cases failed
      · exact fun _ => steady
    · intro _
      rw [same]
      apply (works_load task steady present False nofun).conseq
      · exact fun _ hs => hs
      · exact fun _ _ hs => hs.2.2

/-! ### Cutting anew -/

/-- The documents that may be left when the batch has been read, and then has been worked off but
for a rest. -/
def Left (batch rest : List DocumentId) (x : DocumentId × ℕ) : Prop :=
  x.1 ∈ rest ∨ (batch ≠ [] ∧ ∀ d ∈ batch, d < x.1)

/-- The documents that may be left beyond the last one that has been worked off. -/
def Beyond (batch : List DocumentId) (last : Option DocumentId) (x : DocumentId × ℕ) : Prop :=
  batch ≠ [] ∧ ∀ c, last = some c → c < x.1

/-- The batch is read: a document that is left is in it, or beyond it. -/
theorem works_rechunkBatch (task : message.task = .reindexKb id) {view : KbReindexJob}
    (begun : view.status ≠ .pending) :
  Works base id cfg message (View base id view) (tx (.rechunkBatch view)) fun batch s =>
    batch.Pairwise (· < ·) ∧ View base id view s ∧ Remaining base id (Left batch batch) s
  := by
  apply works_read task (steady_view view) _ fun _ hs => hs.present
  · rintro x db ⟨⟩
    rfl
  · intro s t batch hs inv later hquery
    obtain ⟨hbatch, -⟩ := Prod.mk.inj (Except.ok.inj hquery)
    obtain ⟨job, hjob, hkb, -, status⟩ := hs.row
    have ids : batch = (idsAfter s.db job.kbId job.rechunkCursor).take rechunkBatchSize := by
      rw [← hbatch, rechunkBatch, map_id_forKbAfter, hs.same, hjob, hkb]
      rfl
    have sorted := sorted_idsAfter inv.wellFormed job.kbId job.rechunkCursor
    refine ⟨?_, steady_view view s t hs later, ?_⟩
    · rw [ids]
      apply sorted.sublist (List.take_sublist _ _)
    · apply steady_remaining _ s t _ later
      refine ⟨job, hjob, status begun, ?_⟩
      intro rechunk x hx
      have row := inv.rows id job hjob rechunk
      obtain ⟨d, hd, hid, hdkb, version⟩ := row.listed (status begun) x hx
      by_cases visible : d.visible
      · by_cases beyond : ∀ c, job.rechunkCursor = some c → c < x.1
        · right
          rw [← hid] at beyond
          have found := mem_idsAfter hd visible hdkb beyond
          unfold Left
          rw [ids, ← hid]
          apply mem_take_or_beyond (by decide) sorted found
        · left
          obtain ⟨c, hc⟩ := not_forall.mp beyond
          obtain ⟨hc, hle⟩ := Classical.not_imp.mp hc
          apply row.cursor c hc x hx (not_lt.mp hle)
      · left
        exact ⟨d, hd, hid, .inl (eq_false_of_ne_true visible)⟩
  · intro s e _ failed
    cases failed
  · exact fun batch s t hs later =>
      ⟨hs.1, steady_view view s t hs.2.1 later, steady_remaining _ s t hs.2.2 later⟩

/-- A reingest fails because the document is gone, or busy. -/
theorem reingest_error {now : ℕ} {db : Db} {document : DocumentId} {staleBefore : ℕ} {e : Exn}
    (h : reingest now db document staleBefore = .error e) :
  DocumentRepository.getById db document = none ∨ e.isConflict
  := by
  unfold reingest requireDocument at h
  split at h
  next none =>
    left
    apply none
  next d found =>
    right
    simp only [bind, Except.bind] at h
    split at h
    · cases h
      rfl
    · cases h

/-- How a reingest by a round may end. -/
def Reingested {α : Type} (base : JobId → List (DocumentId × ℕ)) (id : JobId)
    (G : DocumentId × ℕ → Prop) (document : DocumentId) : Except Exn α → Shared → Prop
  | .ok _, s => Remaining base id (fun x => G x ∧ x.1 ≠ document) s
  | .error e, s => Remaining base id G s ∧ (e.isConflict = false → Exempt id s)

theorem steady_reingested {α : Type} {G : DocumentId × ℕ → Prop} {document : DocumentId}
    (r : Except Exn α) :
  Steady (Reingested base id G document r)
  := by
  cases r with
  | ok a => apply steady_remaining
  | error e =>
    rintro s t ⟨remaining, exempt⟩ later
    exact ⟨steady_remaining _ s t remaining later, fun h => steady_exempt s t (exempt h) later⟩

/-- The transaction of a reingest. -/
theorem triple_reingestTx (task : message.task = .reindexKb id) (G : DocumentId × ℕ → Prop)
    (document : DocumentId) (staleBefore : ℕ) :
  ((rechunking cfg base).contract (some message)).Triple (Remaining base id G)
    (tx (.reingest document staleBefore)) (Reingested base id G document)
  := by
  apply Contract.Triple.perform
  · exact steady_remaining G
  · rintro s r t hs ⟨⟨running, inv⟩, answer, ⟨admitted, -⟩, hperform⟩
    have spares : (Op.tx (.reingest document staleBefore)).SparesJobs := by
      rintro x db ⟨⟩
      rfl
    have kept := Rechunking.spare inv spares hperform
    refine ⟨kept, ?_⟩
    have remaining := steady_remaining G s t hs kept.1
    cases r with
    | ok version =>
      have done : reingest s.now s.db document staleBefore = .ok (version, t.db) :=
        Shared.perform_tx hperform
      obtain ⟨job, hjob, begun, handled⟩ := hs
      obtain ⟨job', hjob', -, rechunk', begun'⟩ := kept.1.jobs id job hjob
      refine ⟨job', hjob', begun' begun, ?_⟩
      rw [rechunk']
      intro rechunk x hx
      obtain before | left := handled rechunk x hx
      · left
        apply before.grows kept.1.grows
      · by_cases this : x.1 = document
        · left
          rw [← this] at done
          have listed := (Rechunking.rows inv id job hjob rechunk).listed begun x hx
          apply handled_of_reingest (Rechunking.wellFormed inv) listed done
        · right
          exact ⟨left, this⟩
    | error e =>
      refine ⟨remaining, ?_⟩
      intro other
      apply exempt_of_error task hs.present kept.1 admitted
      intro undisturbed
      obtain ⟨e', raised⟩ | ⟨-, failed⟩ := Shared.perform_tx_error hperform
      · apply undisturbed.answers e' raised
      · obtain gone | busy := reingest_error failed
        · have there := undisturbed.documents document staleBefore rfl
          rw [gone] at there
          cases there
        · rw [busy] at other
          cases other
  · exact steady_reingested

/-- A round reingests one document of its batch. -/
theorem triple_reingest (task : message.task = .reindexKb id) (G : DocumentId × ℕ → Prop)
    (document : DocumentId) :
  ((rechunking cfg base).contract (some message)).Triple (Remaining base id G)
    (DocumentService.reingest cfg document) (Reingested base id G document)
  := by
  apply Contract.Triple.bind
    (triple_plain task rfl (steady_remaining G) fun _ hs => hs.present)
  · intro now
    apply Contract.Triple.bind (Q := Reingested base id G document)
    · apply (triple_reingestTx task G document _).conseq
      · exact fun _ hs => hs.1
      · exact fun _ _ hs => hs
    · intro version
      apply Contract.Triple.bind
        (triple_plain task rfl (steady_remaining fun x => G x ∧ x.1 ≠ document) fun _ hs =>
          hs.present)
      · intro _
        apply Contract.Triple.pure
        · rintro s t ⟨hs, exempt⟩ later
          exact ⟨steady_remaining _ s t hs later,
            fun e he => steady_exempt s t (exempt e he) later⟩
        · exact fun s hs => hs.1
      · rintro e s ⟨hs, exempt⟩
        exact ⟨hs.mono fun x _ hx => hx.1, fun _ => exempt e rfl⟩
    · exact fun e s hs => hs
  · rintro e s ⟨hs, exempt⟩
    exact ⟨hs, fun _ => exempt e rfl⟩

/-- What is left of the batch is beyond the last document that has been worked off. -/
theorem Left.beyond {batch rest : List DocumentId} {last : Option DocumentId}
    {x : DocumentId × ℕ} (h : Left batch rest x) (part : ∀ d ∈ rest, d ∈ batch)
    (before : ∀ c, last = some c → c ∈ batch ∧ ∀ d ∈ rest, c < d) :
  Beyond batch last x
  := by
  obtain rest' | ⟨nonempty, all⟩ := h
  · constructor
    · exact List.ne_nil_of_mem (part _ rest')
    · exact fun c hc => (before c hc).2 _ rest'
  · constructor
    · apply nonempty
    · exact fun c hc => all c (before c hc).1

/-- The loop over a batch: the documents up to the last one that has been worked off have been
handled. -/
theorem works_reingestEach (task : message.task = .reindexKb id) {batch rest : List DocumentId}
    {processed : ℕ} {last : Option DocumentId} (part : ∀ d ∈ rest, d ∈ batch)
    (sorted : rest.Pairwise (· < ·))
    (before : ∀ c, last = some c → c ∈ batch ∧ ∀ d ∈ rest, c < d) :
  Works base id cfg message (Remaining base id (Left batch rest))
    (reingestEach cfg rest processed last)
    fun result => Remaining base id (Beyond batch result.2)
  := by
  induction rest generalizing processed last with
  | nil =>
    apply Works.pure (steady_remaining _)
    exact fun s hs => hs.mono fun x _ left => left.beyond part before
  | cons document rest ih =>
    obtain ⟨first, sorted'⟩ := List.pairwise_cons.mp sorted
    apply Contract.Triple.bind (triple_reingest task (Left batch (document :: rest)) document).attempt
    · intro r
      cases r with
      | ok _ =>
        have next : ∀ c, some document = some c → c ∈ batch ∧ ∀ d ∈ rest, c < d := by
          rintro c ⟨⟩
          exact ⟨part document List.mem_cons_self, first⟩
        apply Works.conseq (ih _ sorted' next)
        · rintro s ⟨r', ⟨⟩, hs⟩
          apply Remaining.mono hs
          rintro x - ⟨rest' | all, other⟩
          · left
            obtain rfl | rest' := List.mem_cons.mp rest'
            · exact absurd rfl other
            · apply rest'
          · right
            apply all
        · exact fun _ _ hs => hs
        · exact fun d hd => part d (List.mem_cons_of_mem _ hd)
      | error e =>
        dsimp only
        split
        · apply Contract.Triple.pure
          · rintro s t ⟨r', ⟨⟩, hs⟩ later
            exact ⟨_, rfl, steady_reingested _ s t hs later⟩
          · rintro s ⟨r', ⟨⟩, hs⟩
            apply Remaining.mono hs.1
            exact fun x _ left => left.beyond part before
        next other =>
          apply Contract.Triple.raise
          · rintro s t ⟨r', ⟨⟩, hs⟩ later
            exact ⟨_, rfl, steady_reingested _ s t hs later⟩
          · rintro s ⟨r', ⟨⟩, hs⟩
            apply hs.2
            rw [← Bool.not_eq_true]
            apply other
    · rintro e s ⟨r', ⟨⟩, -⟩

/-- A transaction of the job alone, by a round that knows what remains. -/
theorem works_updateReindexJob (task : message.task = .reindexKb id) {G : DocumentId × ℕ → Prop}
    {job : JobId} (same : job = id) {u : JobUpdate} (status : u.status = none)
    (cursor : ∀ c, u.rechunkCursor = some c → ∀ x ∈ base id, x.1 ≤ c → ¬G x) :
  Works base id cfg message (Remaining base id G) (tx (.updateReindexJob job u))
    fun _ => Remaining base id G
  := by
  apply works_tx task (steady_remaining G) (fun _ => steady_remaining G) fun _ hs => hs.present
  · rintro _ _ ⟨⟩
    rw [status]
    rintro ⟨⟩
  · intro s hs inv _ w hw row hrow rechunk
    rw [List.mem_singleton.mp hw] at hrow ⊢
    dsimp only at hrow ⊢
    rw [same] at hrow ⊢
    apply hs.admissible inv hrow rechunk cursor
    · rw [status]
      rintro (⟨⟨⟩⟩ | ⟨⟨⟩⟩)
    · rw [status]
      rintro ⟨⟩
  · exact fun s t _ hs _ later _ => steady_remaining G s t hs later
  · intro s e _ _ _ failed
    cases failed

theorem works_enterEmbedding (task : message.task = .reindexKb id) {view : KbReindexJob}
    (same : view.id = id) :
  Works base id cfg message (Remaining base id fun _ => False) (tx (.enterEmbedding view))
    fun _ => Remaining base id fun _ => False
  := by
  apply works_tx task (steady_remaining _) (fun _ => steady_remaining _) fun _ hs => hs.present
  · rintro _ _ ⟨⟩
  · intro s hs inv _ w hw row hrow rechunk
    have written : w.1 = view.id ∧ w.2.status ≠ some .failed := by
      simp only [Tx.jobWrites] at hw
      split at hw
      all_goals
        rw [List.mem_singleton.mp hw]
        constructor
        · rfl
        · rintro ⟨⟩
    rw [written.1, same] at hrow ⊢
    apply hs.admissible inv hrow rechunk
    · exact fun _ _ _ _ _ h => h
    · exact fun _ _ _ h => h
    · apply written.2
  · exact fun s t _ hs _ later _ => steady_remaining _ s t hs later
  · intro s e _ _ _ failed
    cases failed

/-- A round of the first phase. -/
theorem works_advanceRechunk (task : message.task = .reindexKb id) {view : KbReindexJob}
    (begun : view.status ≠ .pending) :
  Works base id cfg message (View base id view) (advanceRechunk cfg view) fun _ => Present id
  := by
  apply Works.of_fact fun _ hs => hs.same
  intro same
  apply Works.bind (works_rechunkBatch task begun)
  intro batch
  apply Works.assume
  intro sorted
  apply Works.conseq (P := Remaining base id (Left batch batch)) (φ := fun _ => Present id)
  · apply Works.bind (works_reingestEach task (fun _ h => h) sorted fun c hc => by cases hc)
    rintro ⟨processed, last⟩
    dsimp only
    split
    · apply Works.bind
      · apply works_updateReindexJob task same rfl
        exact fun c hc x _ hle left => absurd (left.2 c hc) (not_lt.mpr hle)
      · intro _
        rw [same]
        apply (works_load task (steady_remaining _) (fun _ hs => hs.present) False nofun).conseq
        · exact fun _ hs => hs
        · exact fun _ _ hs => hs.2.2.present
    · split
      · apply Works.bind
        · apply works_updateReindexJob task same rfl
          exact fun _ => nofun
        · intro _
          apply Works.pure (steady_remaining _)
          exact fun _ hs => hs.present
      next empty =>
        apply Works.conseq (P := Remaining base id fun _ => False) (φ := fun _ => Present id)
        · apply Works.bind (works_enterEmbedding task same)
          intro entered
          split
          · apply Works.bind
            · rw [same]
              apply works_load task (steady_remaining _) (fun _ hs => hs.present) False nofun
            · intro view'
              apply Works.of_fact fun _ hs => hs.2.1.same
              intro same'
              apply (works_advanceEmbedding task same').conseq
              · exact fun _ hs => hs.2.2
              · exact fun _ _ hs => hs.present
          · apply Works.pure (steady_remaining _)
            exact fun _ hs => hs.present
        · intro s hs
          apply hs.mono
          exact fun x _ left => empty left.1
        · exact fun _ _ hs => hs
  · exact fun s hs => hs.2
  · exact fun _ _ hs => hs

/-! ### One round -/

/-- The first phase of a job that cuts anew. -/
theorem nextStatus_pending (rechunk : Bool) :
  nextStatus .pending rechunk = if rechunk then .rechunking else .embedding
  := by
  cases rechunk
  all_goals rfl

theorem works_begin (task : message.task = .reindexKb id) (view : KbReindexJob) :
  Works base id cfg message (View base id view) (KbReindexService.begin view) fun view' s =>
    view'.status ≠ .pending ∧ View base id view' s
  := by
  apply Works.of_fact fun _ hs => hs.same
  intro same
  unfold KbReindexService.begin
  split
  · apply Works.bind (φ := fun _ => Remaining base id fun _ => True)
    · apply works_tx task (steady_view view) (fun _ => steady_remaining _) fun _ hs => hs.present
      · rintro _ _ ⟨⟩ h
        apply nextStatus_ne_pending _ _ (Option.some.inj h)
      · intro s hs _ listed w hw row hrow rechunk
        rw [List.mem_singleton.mp hw] at hrow ⊢
        dsimp only at hrow ⊢
        have cuts : view.rechunk = true := by
          obtain ⟨job, hjob, -, hrechunk, -⟩ := hs.row
          rw [same, hjob] at hrow
          cases hrow
          rw [← hrechunk, rechunk]
        constructor
        · intro _ x hx
          apply listed view.id _ rfl rfl nofun _ row hrow x hx
          intro h
          apply nextStatus_ne_pending _ _ (Option.some.inj h)
        · nofun
        · dsimp only
          rw [cuts, nextStatus_pending]
          rintro (⟨⟨⟩⟩ | ⟨⟨⟩⟩)
        · dsimp only
          rw [cuts, nextStatus_pending]
          rintro ⟨⟩
      · intro s t _ hs _ later hcommit
        obtain ⟨job, hjob, -⟩ := hs.row
        refine ⟨_, getById_transact hcommit hjob, ?_, ?_⟩
        · have status : (rewritten
              ((Tx.updateReindexJob view.id
                { status := some (nextStatus .pending view.rechunk) }).jobWrites s.db) job).status =
              nextStatus .pending view.rechunk := by
            apply status_rewritten_of_written
            · intro w hw other hother
              rw [List.mem_singleton.mp hw] at hother
              cases hother
              rfl
            · right
              refine ⟨_, List.mem_cons_self, ?_, rfl⟩
              have hid := List.find?_some hjob
              exact same.trans (of_decide_eq_true hid).symm
          rw [status]
          apply nextStatus_ne_pending
        · exact fun _ _ _ => .inr trivial
      · intro s e _ _ _ failed
        cases failed
    · intro _
      rw [same]
      apply (works_load task (steady_remaining _) (fun _ hs => hs.present) True
        fun _ _ hs => hs).conseq
      · exact fun _ hs => hs
      · exact fun _ _ hs => ⟨hs.1 trivial, hs.2.1⟩
  next begun =>
    apply Works.pure (steady_view view)
    exact fun s hs => ⟨begun, hs⟩

/-- The two phases, for a job that has begun. -/
theorem works_phase (task : message.task = .reindexKb id) {view : KbReindexJob}
    (begun : view.status ≠ .pending) :
  Works base id cfg message (View base id view)
    (if view.status = .rechunking then advanceRechunk cfg view else advanceEmbedding view)
    fun _ => Present id
  := by
  split
  · apply works_advanceRechunk task begun
  next passed =>
    apply Works.of_fact fun _ hs => hs.same
    intro same
    apply (works_advanceEmbedding task same).conseq
    · exact fun _ hs => hs.reached begun passed
    · exact fun _ _ hs => hs.present

/-- A failure is recorded only for an exempt job. -/
theorem works_fail (task : message.task = .reindexKb id) (e : Exn) :
  Works base id cfg message (Exempt id)
    (do
      let _ ← tx (.updateReindexJob id
        { status := some .failed
          error := some (errorPayload e) })
      (.raise e : Prog KbReindexJob))
    fun _ => Present id
  := by
  apply Works.bind (φ := fun _ => Exempt id)
  · apply works_tx task steady_exempt (fun _ => steady_exempt) fun _ hs => hs.present
    · rintro _ _ ⟨⟩ ⟨⟩
    · intro s hs _ _ w hw row hrow rechunk
      rw [List.mem_singleton.mp hw] at hrow
      obtain ⟨job, hjob, exempt⟩ := hs
      cases hjob.symm.trans hrow
      rw [exempt] at rechunk
      cases rechunk
    · exact fun s t _ hs _ later _ => steady_exempt s t hs later
    · intro s e _ _ _ failed
      cases failed
  · intro _
    apply Contract.Triple.raise
    · exact steady_exempt
    · exact fun _ hs => hs

/-- The job is read at the beginning of a round, if it is there. -/
theorem triple_load (id : JobId) :
  ((rechunking cfg base).contract (some message)).Triple (fun _ => True)
    (KbReindexService.load id) fun r s => ∀ view, r = .ok view → View base id view s
  := by
  apply Contract.Triple.perform
  · exact fun _ _ _ _ => trivial
  · rintro s r t - ⟨⟨running, inv⟩, answer, -, hperform⟩
    have spares : (Op.tx (.loadReindexJob id)).SparesJobs := by
      rintro x db ⟨⟩
      rfl
    have kept := Rechunking.spare inv spares hperform
    refine ⟨kept, ?_⟩
    rintro view rfl
    apply steady_view view s t _ kept.1
    have load := Shared.perform_tx hperform
    obtain ⟨view', hview, hpair⟩ := ok_of_bind load
    obtain ⟨rfl, -⟩ := Prod.mk.inj (Except.ok.inj hpair)
    apply view_of_row inv (loadReindexJob_ok hview)
  · exact fun r s t h later view hr => steady_view view s t (h view hr) later

/-- A round. -/
theorem triple_advance (task : message.task = .reindexKb id) :
  ((rechunking cfg base).contract (some message)).Triple (fun _ => True) (advance cfg id)
    fun _ _ => True
  := by
  apply Contract.Triple.bind (triple_load id)
  · intro view
    have round : Works base id cfg message (View base id view)
        (if isTerminal view.status then pure view
        else do
          let view ← KbReindexService.begin view
          Program.handle
            (if view.status = .rechunking then advanceRechunk cfg view else advanceEmbedding view)
            fun e => do
              let _ ← tx (.updateReindexJob id
                { status := some .failed
                  error := some (errorPayload e) })
              .raise e)
        fun _ => Present id := by
      split
      · apply Works.pure (steady_view view)
        exact fun _ hs => hs.present
      · apply Works.bind (works_begin task view)
        intro view
        apply Works.assume
        intro begun
        apply Contract.Triple.handle (works_phase task begun)
        · exact fun e => works_fail task e
        · exact fun _ => steady_present
        · exact fun _ _ hs => hs
    apply Contract.Triple.conseq round
    · exact fun s hs => hs view rfl
    · exact fun _ _ _ => trivial
  · exact fun _ _ _ => trivial

/-- A program that writes no job. -/
theorem triple_of_sparesJobs {α : Type} {p : Prog α} (hp : p.Uses Op.SparesJobs) :
  ((rechunking cfg base).contract (some message)).Triple (fun _ => True) p fun _ _ => True
  := by
  constructor
  exact fun s _ => safe_of_sparesJobs hp s

theorem sparesJobs_enqueue (task : Task) (sentFor delay : ℕ) :
  (Op.enqueue task sentFor delay).SparesJobs
  := by
  rintro x db ⟨⟩

theorem triple_reindexRounds (task : message.task = .reindexKb id) (rounds : ℕ)
    (view : KbReindexJob) :
  ((rechunking cfg base).contract (some message)).Triple (fun _ => True)
    (reindexRounds cfg id rounds view) fun _ _ => True
  := by
  induction rounds generalizing view with
  | zero =>
    apply triple_of_sparesJobs
    unfold reindexRounds
    split
    · trivial
    · refine Program.Uses.bind' (Program.uses_perform (sparesJobs_enqueue _ _ _)) ?_
      intro _
      trivial
  | succ rounds ih =>
    unfold reindexRounds
    split
    · apply triple_of_sparesJobs
      trivial
    · apply Contract.Triple.bind (triple_advance task)
      · intro next
        split
        · apply triple_of_sparesJobs
          refine Program.Uses.bind' (Program.uses_perform (sparesJobs_enqueue _ _ _)) ?_
          intro _
          trivial
        · apply ih
      · exact fun _ _ _ => trivial

theorem triple_reindexKb (task : message.task = .reindexKb id) :
  ((rechunking cfg base).contract (some message)).Triple (fun _ => True) (reindexKb cfg id)
    fun _ _ => True
  := by
  apply Contract.Triple.bind (triple_advance task).attempt
  · intro r
    cases r with
    | error e =>
      apply Contract.Triple.conseq (P := fun _ => True) (Q := fun _ _ => True)
      · apply triple_of_sparesJobs
        dsimp only
        split
        · trivial
        · trivial
      · exact fun _ _ => trivial
      · exact fun _ _ _ => trivial
    | ok view =>
      apply Contract.Triple.conseq (P := fun _ => True) (Q := fun _ _ => True)
      · apply Contract.Triple.bind (triple_reindexRounds task _ view)
        · intro view'
          apply triple_of_sparesJobs
          trivial
        · exact fun _ _ _ => trivial
      · exact fun _ _ => trivial
      · exact fun _ _ _ => trivial
  · exact fun _ _ _ => trivial

end

/-! ### Runs -/

section

variable {cfg : Settings} {base : JobId → List (DocumentId × ℕ)}

/-- Every activity keeps to the discipline from its beginning on. -/
theorem rechunking_begins {s : Shared} {activity : Activity} (h : Begins cfg s activity) :
  (rechunking cfg base).Safe activity s
  := by
  cases h with
  | request r =>
    apply safe_of_sparesJobs
    apply (uses_request cfg r).mono
    exact fun _ => sparesJobs_of_byRequest
  | @deliver message batches queued =>
    have safe : ((rechunking cfg base).contract (some message)).Triple (fun _ => True)
        (message.code cfg batches) fun _ _ => True := by
      cases htask : message.task with
      | ingestDocument document =>
        apply triple_of_sparesJobs
        unfold Message.code
        rw [htask]
        apply (uses_ingestTask cfg message document).mono
        exact fun _ => sparesJobs_of_byIngestion
      | embedDocument document =>
        apply triple_of_sparesJobs
        unfold Message.code
        rw [htask]
        apply (uses_embedTask cfg batches message document).mono
        exact fun _ => sparesJobs_of_byEmbedding
      | reindexKb job =>
        unfold Message.code
        rw [htask]
        apply triple_reindexKb htask
    have whole : ((rechunking cfg base).contract (some message)).Triple (fun _ => True)
        (Activity.ofMessage cfg batches message).code fun _ _ => True := by
      apply Contract.Triple.bind safe
      · intro _
        apply triple_of_sparesJobs
        trivial
      · exact fun _ _ _ => trivial
    apply whole.safe s trivial

theorem rechunking_lawful : (rechunking cfg base).Lawful where
  init w hw := by
    constructor
    · apply wellFormed_of_initial hw
    · obtain ⟨knowledgeBases, -, rfl⟩ := hw
      rintro id job ⟨⟩
  begins w activity _ hbegins := rechunking_begins hbegins
  quiet me s t hquiet := by
    have same : t.db = s.db := hquiet.db
    change Onward s.db t.db
    rw [same]
    apply Onward.refl
  interferes w i j a b t _ _ _ _ hguarantee := hguarantee.1
  keeps_quiet a w w' hw hquiet hstep := by
    have same : w'.shared.db = w.shared.db := (step_quiet hstep hquiet).1.db
    change Rechunking base w'.shared.db
    rw [same]
    apply hw.inv
  keeps_work w i me op next r answer t _ _ _ _ hguarantee := hguarantee.2

end

end Lumina.Knowledge
