import Lumina.Knowledge.Rounds
import Lumina.Knowledge.Versions

/-!
# A reindex reaches every document

A job that cuts the chunks anew reingests the documents of its knowledge base by and by, and others
upload, reingest and delete documents meanwhile.  As long as nothing disturbs the tasks of such
jobs, none of them fails, and when one has left its first phase, every document that was there
before it began has got a later version or is deleted.

What disturbs a task: an exception from outside, a document that is deleted between the read of its
batch and its turn, and a chunk that is replaced between its embedding and the store.
-/

namespace Lumina.Knowledge

open Interleaving Transition

/-- No job that cuts anew has failed. -/
def NoneFailed (db : Db) : Prop :=
  ∀ id job, KbReindexJobRepository.getById db id = some job → job.rechunk → job.status ≠ .failed

/-- The documents that are in the knowledge base at first have a later version or are deleted. -/
def ReingestedAll (kb : KbId) (db db' : Db) : Prop :=
  ∀ d ∈ db.documents, d.visible → d.kbId = kb →
    ∀ d' ∈ db'.documents, d'.id = d.id → d'.visible → d.docVersion < d'.docVersion

/-- The jobs that were waiting at first and have left the phase of cutting anew have reingested the
documents. -/
def RechunkComplete (db db' : Db) : Prop :=
  ∀ id job, KbReindexJobRepository.getById db id = some job → job.rechunk → job.status = .pending →
    ∀ job', KbReindexJobRepository.getById db' id = some job' → job'.status ≠ .pending →
      job'.status ≠ .rechunking → ReingestedAll job.kbId db db'

/-- The action does not disturb a task of a job that cuts anew. -/
def RechunkSteady (w : World) (a : Action) : Prop :=
  ∀ me op answer, Performs w a me op answer → RechunkUndisturbed me op answer w.shared

/-- The documents of a knowledge base, with their versions. -/
def documentVersions (kb : KbId) (db : Db) : List (DocumentId × ℕ) :=
  (db.documents.filter fun d => d.kbId = kb).map fun d => (d.id, d.docVersion)

theorem listed_documentVersions {db : Db} {kb : KbId} :
  ∀ x ∈ documentVersions kb db, Listed db kb x
  := by
  intro x hx
  obtain ⟨d, hd, rfl⟩ := List.mem_map.mp hx
  obtain ⟨hmem, hkb⟩ := List.mem_filter.mp hd
  exact ⟨d, hmem, rfl, of_decide_eq_true hkb, le_refl _⟩

/-- The second state has later tables. -/
def Goes (v w : World) : Prop :=
  Onward v.shared.db w.shared.db

theorem Goes.refl (w : World) : Goes w w :=
  Onward.refl w.shared.db

theorem Goes.trans (u v w : World) (h : Goes u v) (h' : Goes v w) : Goes u w :=
  Onward.trans h h'

section

variable {cfg : Settings} {h : List (World × Action)} {w : World}

/-- Under the discipline with any documents that the jobs find when they begin. -/
theorem rechunks_of_steady (run : (system cfg).Run h w) (steady : ∀ x ∈ h, RechunkSteady x.1 x.2)
    {base : JobId → List (DocumentId × ℕ)}
    (begins : ∀ x ∈ h, ∀ me op answer, Performs x.1 x.2 me op answer →
      BeginsListed base op answer x.1.shared) :
  Rechunking base w.shared.db
  := by
  have holds : (rechunking cfg base).Holds w := by
    apply rechunking_lawful.run run _ w List.mem_cons_self
    intro x hx me op answer hperforms
    constructor
    · apply steady x hx me op answer hperforms
    · apply begins x hx me op answer hperforms
  apply holds.inv

theorem noneFailed_of_steady (run : (system cfg).Run h w)
    (steady : ∀ x ∈ h, RechunkSteady x.1 x.2) :
  NoneFailed w.shared.db
  := by
  have rows : Rechunking (fun _ => []) w.shared.db := by
    apply rechunks_of_steady run steady
    rintro x - me op answer - id u - - - - job - y ⟨⟩
  intro id job hjob rechunk
  apply (rows.rows id job hjob rechunk).alive

/-- What a committed update of a job leaves of its status. -/
theorem status_after_update {w w' : World} {a : Action} {me : Option Message} {id : JobId}
    {u : JobUpdate} {status : ReindexStatus} {job : KbReindexJob}
    (hperforms : Performs w a me (.tx (.updateReindexJob id u)) .done)
    (hstep : World.step cfg a w = some w') (hstatus : u.status = some status)
    (hjob : KbReindexJobRepository.getById w.shared.db id = some job) :
  ∃ job', KbReindexJobRepository.getById w'.shared.db id = some job' ∧ job'.status = status
  := by
  obtain ⟨i, next, rfl, hactivity⟩ := hperforms
  obtain ⟨me', op', next', r, t, hactivity', hperform, rfl⟩ := step_work hstep
  cases hactivity.symm.trans hactivity'
  cases r with
  | error e =>
    obtain ⟨e', answered⟩ | ⟨-, failed⟩ := Shared.perform_tx_error hperform
    · cases answered
    · cases failed
  | ok done =>
    have found := getById_transact (Shared.perform_tx hperform) hjob
    refine ⟨_, found, ?_⟩
    have hid : job.id = id := by
      have found := List.find?_some hjob
      exact of_decide_eq_true found
    rw [Tx.jobWrites, rewritten_cons, if_pos hid.symm]
    change u.status.getD job.status = status
    rw [hstatus]
    rfl

/-- While a job is waiting, nothing has begun it; so what begins it finds the documents that were
there then. -/
theorem beginsListed_of_pending (run : (system cfg).Run h w) {v : World}
    (hv : v ∈ Machine.states h w) {id : JobId} {row : KbReindexJob}
    (hrow : KbReindexJobRepository.getById v.shared.db id = some row)
    (pending : row.status = .pending) :
  ∀ x ∈ h, ∀ me op answer, Performs x.1 x.2 me op answer →
    BeginsListed (fun job => if job = id then documentVersions row.kbId v.shared.db else []) op
      answer x.1.shared
  := by
  have order := run.before_or_after (R := Goes) Goes.refl Goes.trans (step_onward run)
  rintro x hx me op answer hperforms job u rfl rfl status begun found hfound y hy
  dsimp only at hy
  split at hy
  next same =>
    subst same
    obtain before | ⟨t, hstep, after⟩ := order x hx v hv
    · obtain ⟨found', hfound', kb, -, -⟩ := before.jobs job row hrow
      cases hfound.symm.trans hfound'
      rw [kb]
      apply (listed_documentVersions y hy).grows before.grows
    · obtain ⟨new, hnew⟩ := Option.ne_none_iff_exists'.mp status
      obtain ⟨job', hjob', written⟩ := status_after_update hperforms hstep hnew hfound
      obtain ⟨row', hrow', -, -, left⟩ := after.jobs job job' hjob'
      cases hrow.symm.trans hrow'
      have still : row.status ≠ .pending := by
        apply left
        rw [written]
        rintro rfl
        apply begun hnew
      exact absurd pending still
  next => cases hy

theorem rechunkComplete_of_steady (run : (system cfg).Run h w)
    (steady : ∀ x ∈ h, RechunkSteady x.1 x.2) :
  ∀ v ∈ Machine.states h w, RechunkComplete v.shared.db w.shared.db
  := by
  intro v hv id row hrow rechunk pending job hjob begun left d hd visible hkb d' hd' hid visible'
  have rows := rechunks_of_steady run steady (beginsListed_of_pending run hv hrow pending)
  have onward : Onward v.shared.db w.shared.db := by
    have pairs := (run.pairwise_states_iff (R := Goes) Goes.refl Goes.trans).mpr (step_onward run)
    obtain rfl | hv := List.mem_cons.mp hv
    · apply Onward.refl
    · apply (List.pairwise_cons.mp pairs).1 v hv
  obtain ⟨job', hjob', -, same, -⟩ := onward.jobs id row hrow
  cases hjob.symm.trans hjob'
  rw [← same] at rechunk
  have told := rows.rows id job hjob rechunk
  have entered : job.status = .embedding ∨ job.status = .completed := by
    have alive := told.alive
    cases hstatus : job.status with
    | pending => exact absurd hstatus begun
    | rechunking => exact absurd hstatus left
    | embedding => exact .inl rfl
    | completed => exact .inr rfl
    | failed => exact absurd hstatus alive
  have listed : (d.id, d.docVersion) ∈ documentVersions row.kbId v.shared.db := by
    apply List.mem_map_of_mem (f := fun d : Document => (d.id, d.docVersion))
    apply List.mem_filter.mpr
    exact ⟨hd, decide_eq_true hkb⟩
  have handled : Handled w.shared.db (d.id, d.docVersion) := by
    apply told.done entered
    rw [if_pos rfl]
    apply listed
  obtain ⟨d'', hd'', hid'', deleted | later⟩ := handled
  · have same : d' = d'' := Table.eq_of_key rows.wellFormed.documentIds hd' hd'' (hid.trans hid''.symm)
    rw [same, deleted] at visible'
    cases visible'
  · have same : d' = d'' := Table.eq_of_key rows.wellFormed.documentIds hd' hd'' (hid.trans hid''.symm)
    rw [same]
    apply later

/-- In a run that does not disturb the tasks of the jobs that cut anew, none of these jobs fails,
and when one has left its first phase, the documents that were there while it was waiting have been
reingested or are deleted. -/
theorem rechunk_complete (run : (system cfg).Run h w) (steady : ∀ x ∈ h, RechunkSteady x.1 x.2) :
  NoneFailed w.shared.db ∧ ∀ v ∈ Machine.states h w, RechunkComplete v.shared.db w.shared.db
  := by
  constructor
  · apply noneFailed_of_steady run steady
  · apply rechunkComplete_of_steady run steady

end

/-! ### Small runs -/

/-- `Undisturbed`, computed. -/
def isUndisturbed (op : Op) (answer : Answer) (s : Shared) : Bool :=
  (match answer with
    | .raised _ => false
    | _ => true) &&
  match op with
  | .tx (.reingest document _) => (DocumentRepository.getById s.db document).isSome
  | .tx (.upsertForJob _ chunks _) => chunks.all fun id => s.db.chunks.any (·.id = id)
  | _ => true

theorem undisturbed_of_check {op : Op} {answer : Answer} {s : Shared}
    (h : isUndisturbed op answer s = true) :
  Undisturbed op answer s
  := by
  obtain ⟨answers, documents⟩ := Bool.and_eq_true_iff.mp h
  constructor
  · rintro e rfl
    cases answers
  · rintro document staleBefore rfl
    apply documents
  · rintro job chunks reported rfl id hid
    have found := List.all_eq_true.mp documents id hid
    obtain ⟨c, hc, same⟩ := List.any_eq_true.mp found
    exact ⟨c, hc, of_decide_eq_true same⟩

/-- No operation of any activity is disturbed. -/
def isSteady (w : World) : Action → Bool
  | .work i answer =>
      match w.running[i]? with
      | some { code := .call op _, .. } => isUndisturbed op answer w.shared
      | _ => true
  | _ => true

theorem rechunkSteady_of_check {w : World} {a : Action} (h : isSteady w a = true) :
  RechunkSteady w a
  := by
  rintro me op answer ⟨i, next, rfl, hactivity⟩ message id job - - - -
  apply undisturbed_of_check
  simp only [isSteady, hactivity] at h
  apply h

/-- A job reingests a document that has just been uploaded, and goes on when it has been ingested
and embedded. -/
def rechunkSample : List Action :=
  uploadSample "a" ++ requests 0 2 (.startReindex 1 none (some true)) ++ .deliver 1 0 ::
    works 0 9 ++ .deliver 0 0 :: works 1 18 ++ .finish 1 :: .deliver 1 2 :: works 1 6 ++
      .work 1 (.reported "m") :: works 1 4 ++ .finish 1 :: works 0 3

theorem rechunk_complete_rechunkSample :
  ∃ h w, (system sampleSettings).Run h w ∧
    (KbReindexJobRepository.getById w.shared.db 0).map (·.status) = some .embedding ∧
    NoneFailed w.shared.db ∧ ∀ v ∈ Machine.states h w, RechunkComplete v.shared.db w.shared.db
  := by
  obtain ⟨h, w, run, steady, hw⟩ := Machine.exists_run_of_execWhile (M := system sampleSettings)
    rechunkSample isSteady
    (fun w => decide
      ((KbReindexJobRepository.getById w.shared.db 0).map (·.status) = some .embedding))
    sampleWorld_initial (by decide)
  refine ⟨h, w, run, of_decide_eq_true hw, ?_⟩
  apply rechunk_complete run
  exact fun x hx => rechunkSteady_of_check (steady x hx)

/-- Nothing is raised from outside. -/
def isUnraised : Action → Bool
  | .work _ (.raised _) => false
  | _ => true

/-- The document of a batch is deleted before its turn. -/
def deleteBeforeTurn : List Action :=
  uploadSample "a" ++ requests 0 2 (.startReindex 1 none (some true)) ++ .deliver 1 0 ::
    works 0 4 ++ requests 1 1 (.delete 7) ++ works 0 3

/-- The job fails, although nothing has been raised from outside. -/
theorem not_rechunk_complete_deleteBeforeTurn :
  ¬∀ h w, (system sampleSettings).Run h w → (∀ x ∈ h, ∀ i e, x.2 ≠ .work i (.raised e)) →
    NoneFailed w.shared.db ∧ ∀ v ∈ Machine.states h w, RechunkComplete v.shared.db w.shared.db
  := by
  obtain ⟨h, w, run, unraised, hw⟩ := Machine.exists_run_of_execWhile (M := system sampleSettings)
    deleteBeforeTurn
    (fun _ => isUnraised)
    (fun w => (KbReindexJobRepository.getById w.shared.db 0).any fun job : KbReindexJob =>
      job.rechunk && decide (job.status = .failed))
    sampleWorld_initial (by decide)
  obtain ⟨job, hjob, hfailed⟩ := Option.any_eq_true _ _ |>.mp hw
  obtain ⟨rechunk, failed⟩ := Bool.and_eq_true_iff.mp hfailed
  have quiet : ∀ x ∈ h, ∀ i e, x.2 ≠ .work i (.raised e) := by
    intro x hx i e raised
    have unraised := unraised x hx
    rw [raised] at unraised
    cases unraised
  intro claim
  obtain ⟨noneFailed, -⟩ := claim h w run quiet
  apply noneFailed 0 job hjob rechunk (of_decide_eq_true failed)

end Lumina.Knowledge
