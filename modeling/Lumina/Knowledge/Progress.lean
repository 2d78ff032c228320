import Lumina.Knowledge.Growth
import Lumina.Knowledge.Interference
import Lumina.Knowledge.Jobs
import Lumina.Knowledge.Profiles

/-!
# What becomes of a job in a run

A job stays there, for its knowledge base and with its extent, and once it has begun it never
waits to begin again: no program writes that status.
-/

namespace Lumina.Knowledge

open Interleaving Transition

/-- Every operation of an activity that begins is an operation of the requests, of the ingestion, of
the embedding or of the reindex. -/
theorem Begins.uses {cfg : Settings} {s : Shared} {activity : Activity} {P : Op → Prop}
    (h : Begins cfg s activity) (request : ∀ op : Op, op.byRequest → P op)
    (ingestion : ∀ op : Op, op.byIngestion → P op)
    (embedding : ∀ op : Op, op.byEmbedding → P op) (reindex : ReindexOps P) :
  activity.code.Uses P
  := by
  cases h with
  | request r => apply (uses_request cfg r).mono request
  | @deliver message batches queued =>
    apply Program.Uses.bind'
    · obtain ⟨task, retries, sentFor, charge⟩ := message
      cases task with
      | ingestDocument document => apply (uses_ingestTask cfg _ document).mono ingestion
      | embedDocument document => apply (uses_embedTask cfg batches _ document).mono embedding
      | reindexKb job => apply uses_reindexKb cfg reindex job
    · intro _
      trivial

/-- A later database, with later jobs. -/
structure Onward (db db' : Db) : Prop where
  grows : Grows db db'
  jobs : ∀ id job, KbReindexJobRepository.getById db id = some job →
    ∃ job', KbReindexJobRepository.getById db' id = some job' ∧ job'.kbId = job.kbId ∧
      job'.rechunk = job.rechunk ∧ (job.status ≠ .pending → job'.status ≠ .pending)

namespace Onward

theorem refl (db : Db) : Onward db db where
  grows := .refl db
  jobs := fun _ job hjob => ⟨job, hjob, rfl, rfl, fun h => h⟩

theorem trans {db db' db'' : Db} (h : Onward db db') (h' : Onward db' db'') : Onward db db'' where
  grows := h.grows.trans h'.grows
  jobs := by
    intro id job hjob
    obtain ⟨job', hjob', kb', rechunk', begun'⟩ := h.jobs id job hjob
    obtain ⟨job'', hjob'', kb'', rechunk'', begun''⟩ := h'.jobs id job' hjob'
    exact ⟨job'', hjob'', kb''.trans kb', rechunk''.trans rechunk', fun b => begun'' (begun' b)⟩

end Onward

/-- The operation does not put a job back. -/
def Op.KeepsBegun (op : Op) : Prop :=
  ∀ job u, op = .tx (.updateReindexJob job u) → u.status ≠ some .pending

theorem reindexOps_keepsBegun : ReindexOps Op.KeepsBegun := by
  constructor
  case update =>
    rintro job u hu _ _ ⟨⟩
    apply hu
  all_goals
    intros
    intro job u h
    cases h

/-- No other transaction writes that status either. -/
theorem jobWrites_ne_pending {db : Db} {t : Tx} (h : (Op.tx t).KeepsBegun) :
  ∀ w ∈ t.jobWrites db, w.2.status ≠ some .pending
  := by
  intro w hw
  cases t with
  | updateReindexJob job u =>
    rw [List.mem_singleton.mp hw]
    apply h job u rfl
  | enterEmbedding job =>
    simp only [Tx.jobWrites] at hw
    split at hw
    all_goals
      rw [List.mem_singleton.mp hw]
      intro h
      cases h
  | upsertForJob job chunks reported =>
    simp only [Tx.jobWrites] at hw
    split at hw
    · rw [List.mem_singleton.mp hw]
      intro h
      cases h
    · cases hw
  | closeRound job model =>
    simp only [Tx.jobWrites] at hw
    obtain rfl | hw := List.mem_cons.mp hw
    · intro h
      cases h
    · split at hw
      · rw [List.mem_singleton.mp hw]
        intro h
        cases h
      · cases hw
  | _ => cases hw

theorem transact_onward {cfg : Settings} {now : ℕ} {db db' : Db} {t : Tx} {r : t.Reply}
    (hdb : WellFormed db) (ht : (Op.tx t).KeepsBegun)
    (h : transact cfg now t db = .ok (r, db')) :
  Onward db db'
  := by
  constructor
  · apply effect_grows hdb (transact_effect h)
  · intro id job hjob
    refine ⟨_, getById_transact h hjob, ?_, ?_, ?_⟩
    · exact rewritten_same (·.kbId) (fun _ _ => rfl) _ job
    · exact rewritten_same (·.rechunk) (fun _ _ => rfl) _ job
    · apply status_rewritten_ne
      apply jobWrites_ne_pending ht

/-- An operation that does not put a job back leads to later tables. -/
theorem Shared.perform_onward {cfg : Settings} {me : Option Message} {op : Op} {answer : Answer}
    {s t : Shared} {r : Except Exn op.Reply} (hs : WellFormed s.db) (hop : op.KeepsBegun)
    (h : s.perform cfg me op answer = some (r, t)) :
  Onward s.db t.db
  := by
  obtain same | ⟨x, rfl, -, r', hcommit⟩ := Shared.perform_db h
  · rw [same]
    apply Onward.refl
  · apply transact_onward hs hop hcommit

/-- The discipline of going on: the tables stay well-formed, and every activity leads to later
ones. -/
def goingOn (cfg : Settings) : Discipline cfg where
  inv w := WellFormed w.shared.db
  admits _ _ _ _ := True
  rely _ s t := Onward s.db t.db
  guarantee _ s t := Onward s.db t.db ∧ WellFormed t.db
  post _ _ _ := True
  refl _ s := .refl s.db
  trans h h' := h.trans h'

theorem goingOn_lawful (cfg : Settings) : (goingOn cfg).Lawful where
  init w hw := wellFormed_of_initial hw
  begins w activity hinv hbegins := by
    have uses : activity.code.Uses Op.KeepsBegun := by
      apply hbegins.uses
      · rintro op hop job u rfl
        cases hop
      · rintro op hop job u rfl
        cases hop
      · rintro op hop job u rfl
        cases hop
      · apply reindexOps_keepsBegun
    apply Contract.safe_of_uses uses
    rintro op s r t hop ⟨⟨running, hs⟩, answer, -, hperform⟩
    constructor
    · apply Shared.perform_onward hs hop hperform
    · obtain same | ⟨x, rfl, -, r', hcommit⟩ := Shared.perform_db hperform
      · rw [same]
        apply hs
      · apply WellFormed.effect hs (transact_effect hcommit)
  quiet me s t hquiet := by
    have same : t.db = s.db := hquiet.db
    change Onward s.db t.db
    rw [same]
    apply Onward.refl
  interferes w i j a b t _ _ _ _ hguarantee := hguarantee.1
  keeps_quiet a w w' hw hquiet hstep := by
    have same : w'.shared.db = w.shared.db := (step_quiet hstep hquiet).1.db
    change WellFormed w'.shared.db
    rw [same]
    apply hw.inv
  keeps_work w i me op next r answer t _ _ _ _ hguarantee := hguarantee.2

/-- Every step of a run leads to later tables. -/
theorem step_onward {cfg : Settings} {h : List (World × Action)} {w : World}
    (run : (system cfg).Run h w) :
  ∀ x ∈ h, ∀ w', World.step cfg x.2 x.1 = some w' → Onward x.1.shared.db w'.shared.db
  := by
  intro x hx w' hstep
  have holds : (goingOn cfg).Holds x.1 := by
    apply (goingOn_lawful cfg).run run fun _ _ _ _ _ _ => trivial
    apply List.mem_cons_of_mem
    apply List.mem_map_of_mem hx
  by_cases hwork : ∃ i answer, x.2 = .work i answer
  · obtain ⟨i, answer, ha⟩ := hwork
    rw [ha] at hstep
    obtain ⟨me, op, next, r, t, hactivity, hperform, rfl⟩ := step_work hstep
    apply (holds.performs hactivity trivial hperform).1.1
  · obtain ⟨quiet, -⟩ := step_quiet hstep fun i answer h => hwork ⟨i, answer, h⟩
    rw [quiet.db]
    apply Onward.refl

end Lumina.Knowledge
