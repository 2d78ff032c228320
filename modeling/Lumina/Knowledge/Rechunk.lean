import Lumina.Knowledge.Progress

/-!
# What a reindex that cuts anew has reached

A job that cuts the chunks anew has some documents to reingest: those that were there before it
began, with the versions that they had.  `RechunkInv` says what its row tells about them.  The
cursor is written without regard to the other rounds, so it may go back; but up to wherever it
stands, every one of the documents has been handled.
-/

namespace Lumina.Knowledge

open Interleaving Transition

/-- The document is deleted, or it has a later version. -/
def Handled (db : Db) (x : DocumentId × ℕ) : Prop :=
  ∃ d ∈ db.documents, d.id = x.1 ∧ (d.visible = false ∨ x.2 < d.docVersion)

/-- The document is there, in the knowledge base, in this version or a later one. -/
def Listed (db : Db) (kb : KbId) (x : DocumentId × ℕ) : Prop :=
  ∃ d ∈ db.documents, d.id = x.1 ∧ d.kbId = kb ∧ x.2 ≤ d.docVersion

/-- What the row of a job tells about the documents that it has to reingest. -/
structure RechunkInv (db : Db) (base : List (DocumentId × ℕ)) (job : KbReindexJob) : Prop where
  listed : job.status ≠ .pending → ∀ x ∈ base, Listed db job.kbId x
  cursor : ∀ c, job.rechunkCursor = some c → ∀ x ∈ base, x.1 ≤ c → Handled db x
  done : job.status = .embedding ∨ job.status = .completed → ∀ x ∈ base, Handled db x
  alive : job.status ≠ .failed

/-- An update that keeps this true. -/
structure Admissible (db : Db) (kb : KbId) (base : List (DocumentId × ℕ)) (u : JobUpdate) :
    Prop where
  listed : u.status ≠ none → ∀ x ∈ base, Listed db kb x
  cursor : ∀ c, u.rechunkCursor = some c → ∀ x ∈ base, x.1 ≤ c → Handled db x
  done : u.status = some .embedding ∨ u.status = some .completed → ∀ x ∈ base, Handled db x
  alive : u.status ≠ some .failed

/-- The rows of all jobs that cut anew. -/
def Rechunks (base : JobId → List (DocumentId × ℕ)) (db : Db) : Prop :=
  ∀ id job, KbReindexJobRepository.getById db id = some job → job.rechunk →
    RechunkInv db (base id) job

section

variable {db db' : Db} {base : List (DocumentId × ℕ)} {job : KbReindexJob}

theorem Handled.grows {x : DocumentId × ℕ} (h : Handled db x) (grows : Grows db db') :
  Handled db' x
  := by
  obtain ⟨d, hd, hid, handled⟩ := h
  obtain ⟨d', hd', later⟩ := grows.documents d hd
  refine ⟨d', hd', later.id.trans hid, ?_⟩
  obtain deleted | version := handled
  · left
    rw [← Bool.not_eq_true] at deleted ⊢
    exact fun visible => deleted (later.visible visible)
  · right
    apply lt_of_lt_of_le version later.docVersion

theorem Listed.grows {kb : KbId} {x : DocumentId × ℕ} (h : Listed db kb x)
    (grows : Grows db db') :
  Listed db' kb x
  := by
  obtain ⟨d, hd, hid, hkb, version⟩ := h
  obtain ⟨d', hd', later⟩ := grows.documents d hd
  exact ⟨d', hd', later.id.trans hid, later.kbId.trans hkb, le_trans version later.docVersion⟩

theorem RechunkInv.grows (h : RechunkInv db base job) (grows : Grows db db') :
  RechunkInv db' base job
  := by
  constructor
  · exact fun begun x hx => (h.listed begun x hx).grows grows
  · exact fun c hc x hx hle => (h.cursor c hc x hx hle).grows grows
  · exact fun entered x hx => (h.done entered x hx).grows grows
  · apply h.alive

/-- A job that has not begun. -/
theorem RechunkInv.pending (status : job.status = .pending) (cursor : job.rechunkCursor = none) :
  RechunkInv db base job
  := by
  constructor
  · exact fun begun => absurd status begun
  · intro c hc
    rw [cursor] at hc
    cases hc
  · rintro (entered | entered)
    all_goals
      rw [status] at entered
      cases entered
  · rw [status]
    intro h
    cases h

theorem RechunkInv.apply (h : RechunkInv db base job) {u : JobUpdate}
    (hu : Admissible db job.kbId base u) :
  RechunkInv db base (KbReindexJobRepository.apply u job)
  := by
  have status : (KbReindexJobRepository.apply u job).status = u.status.getD job.status := rfl
  have cursor : (KbReindexJobRepository.apply u job).rechunkCursor =
      u.rechunkCursor.or job.rechunkCursor := rfl
  constructor
  · rw [status]
    cases hstatus : u.status with
    | none => exact h.listed
    | some status => exact fun _ => hu.listed (by rw [hstatus]; nofun)
  · rw [cursor]
    cases hcursor : u.rechunkCursor with
    | none => exact h.cursor
    | some c =>
      rintro _ ⟨⟩
      apply hu.cursor c hcursor
  · rw [status]
    cases hstatus : u.status with
    | none => exact h.done
    | some status =>
      rintro (rfl | rfl)
      · exact hu.done (.inl hstatus)
      · exact hu.done (.inr hstatus)
  · rw [status]
    cases hstatus : u.status with
    | none => exact h.alive
    | some status =>
      rintro rfl
      apply hu.alive hstatus

theorem RechunkInv.rewritten {writes : List (JobId × JobUpdate)} (h : RechunkInv db base job)
    (hw : ∀ w ∈ writes, w.1 = job.id → Admissible db job.kbId base w.2) :
  RechunkInv db base (rewritten writes job)
  := by
  induction writes generalizing job with
  | nil => apply h
  | cons w writes ih =>
    have tail := fun w' hw' => hw w' (List.mem_cons_of_mem _ hw')
    rw [rewritten_cons]
    split
    next hid =>
      apply ih (h.apply (hw w List.mem_cons_self hid))
      exact tail
    next => apply ih h tail

/-- A transaction whose writes are admissible keeps the rows true. -/
theorem Rechunks.transact {cfg : Settings} {now : ℕ} {base : JobId → List (DocumentId × ℕ)}
    {t : Tx} {r : t.Reply} (hdb : WellFormed db) (h : Rechunks base db)
    (hcommit : transact cfg now t db = .ok (r, db'))
    (hw : ∀ w ∈ t.jobWrites db, ∀ job, KbReindexJobRepository.getById db w.1 = some job →
      job.rechunk → Admissible db job.kbId (base w.1) w.2) :
  Rechunks base db'
  := by
  intro id job hjob rechunk
  obtain ⟨old, hold, rfl⟩ | ⟨status, cursor⟩ := getById_transact_cases hcommit hjob
  · have same : (rewritten (t.jobWrites db) old).rechunk = old.rechunk :=
      rewritten_same (·.rechunk) (fun _ _ => rfl) _ old
    have hid : old.id = id := by
      have found := List.find?_some hold
      exact of_decide_eq_true found
    rw [same] at rechunk
    apply RechunkInv.grows _ (effect_grows hdb (transact_effect hcommit))
    apply (h id old hold rechunk).rewritten
    intro w hmem hwid
    have hwold : w.1 = id := hwid.trans hid
    rw [← hwold]
    apply hw w hmem old _ rechunk
    rw [hwold]
    apply hold
  · apply RechunkInv.pending status cursor

end

/-! ### The discipline -/

/-- Nothing that comes from outside disturbs an operation of a reindex task: nothing is raised
without regard to the state, a document that is to be reingested is still there, and so are the
chunks that have been embedded. -/
structure Undisturbed (op : Op) (answer : Answer) (s : Shared) : Prop where
  answers : ∀ e, answer ≠ .raised e
  documents : ∀ document staleBefore, op = .tx (.reingest document staleBefore) →
    (DocumentRepository.getById s.db document).isSome
  chunks : ∀ job chunks reported, op = .tx (.upsertForJob job chunks reported) →
    ∀ id ∈ chunks, ∃ c ∈ s.db.chunks, c.id = id

/-- The operations of the tasks of jobs that cut anew are not disturbed. -/
def RechunkUndisturbed (me : Option Message) (op : Op) (answer : Answer) (s : Shared) : Prop :=
  ∀ message id job, me = some message → message.task = .reindexKb id →
    KbReindexJobRepository.getById s.db id = some job → job.rechunk → Undisturbed op answer s

/-- A job leaves the waiting only when its documents are listed. -/
def BeginsListed (base : JobId → List (DocumentId × ℕ)) (op : Op) (answer : Answer) (s : Shared) :
    Prop :=
  ∀ id u, op = .tx (.updateReindexJob id u) → answer = .done → u.status ≠ none →
    u.status ≠ some .pending → ∀ job, KbReindexJobRepository.getById s.db id = some job →
      ∀ x ∈ base id, Listed s.db job.kbId x

/-- What the tables of a run satisfy. -/
structure Rechunking (base : JobId → List (DocumentId × ℕ)) (db : Db) : Prop where
  wellFormed : WellFormed db
  rows : Rechunks base db

/-- The discipline of cutting anew. -/
def rechunking (cfg : Settings) (base : JobId → List (DocumentId × ℕ)) : Discipline cfg where
  inv w := Rechunking base w.shared.db
  admits me op answer s := RechunkUndisturbed me op answer s ∧ BeginsListed base op answer s
  rely _ s t := Onward s.db t.db
  guarantee _ s t := Onward s.db t.db ∧ Rechunking base t.db
  post _ _ _ := True
  refl := (goingOn cfg).refl
  trans := @Discipline.trans cfg (goingOn cfg)

section

variable {cfg : Settings} {base : JobId → List (DocumentId × ℕ)} {me : Option Message} {op : Op}
  {answer : Answer} {s t : Shared} {r : Except Exn op.Reply}

/-- An operation whose writes are admissible keeps to the discipline. -/
theorem Rechunking.perform (h : Rechunking base s.db) (hop : op.KeepsBegun)
    (hperform : s.perform cfg me op answer = some (r, t))
    (hw : ∀ x, op = .tx x → answer = .done → ∀ w ∈ x.jobWrites s.db, ∀ job,
      KbReindexJobRepository.getById s.db w.1 = some job → job.rechunk →
        Admissible s.db job.kbId (base w.1) w.2) :
  Onward s.db t.db ∧ Rechunking base t.db
  := by
  refine ⟨Shared.perform_onward h.wellFormed hop hperform, ?_⟩
  obtain same | ⟨x, rfl, rfl, r', hcommit⟩ := Shared.perform_db hperform
  · rw [same]
    apply h
  · constructor
    · apply h.wellFormed.effect (transact_effect hcommit)
    · apply h.rows.transact h.wellFormed hcommit (hw x rfl rfl)

/-- The operation writes no job. -/
def Op.SparesJobs (op : Op) : Prop :=
  ∀ x db, op = .tx x → x.jobWrites db = []

theorem Op.SparesJobs.keepsBegun {op : Op} (h : op.SparesJobs) : op.KeepsBegun := by
  rintro job u rfl
  have written : [(job, u)] = [] := h (.updateReindexJob job u) {} rfl
  cases written

theorem Rechunking.spare (h : Rechunking base s.db) (hop : op.SparesJobs)
    (hperform : s.perform cfg me op answer = some (r, t)) :
  Onward s.db t.db ∧ Rechunking base t.db
  := by
  apply h.perform hop.keepsBegun hperform
  intro x hx _ w hw
  rw [hop x s.db hx] at hw
  cases hw

end

theorem sparesJobs_of_byRequest {op : Op} (h : op.byRequest) : op.SparesJobs := by
  rintro x db rfl
  cases x with
  | updateReindexJob _ _ | enterEmbedding _ | upsertForJob _ _ _ | closeRound _ _ => cases h
  | _ => rfl

theorem sparesJobs_of_byIngestion {op : Op} (h : op.byIngestion) : op.SparesJobs := by
  rintro x db rfl
  cases x with
  | updateReindexJob _ _ | enterEmbedding _ | upsertForJob _ _ _ | closeRound _ _ => cases h
  | _ => rfl

theorem sparesJobs_of_byEmbedding {op : Op} (h : op.byEmbedding) : op.SparesJobs := by
  rintro x db rfl
  cases x with
  | updateReindexJob _ _ | enterEmbedding _ | upsertForJob _ _ _ | closeRound _ _ => cases h
  | _ => rfl

/-- A program that writes no job keeps to the discipline. -/
theorem safe_of_sparesJobs {α : Type} {cfg : Settings} {base : JobId → List (DocumentId × ℕ)}
    {me : Option Message} {p : Prog α} (hp : p.Uses Op.SparesJobs) (s : Shared) :
  ((rechunking cfg base).contract me).Safe (fun _ _ => True) p s
  := by
  apply Contract.safe_of_uses hp
  rintro op s r t hop ⟨⟨running, hs⟩, answer, -, hperform⟩
  apply Rechunking.spare hs hop hperform

end Lumina.Knowledge
