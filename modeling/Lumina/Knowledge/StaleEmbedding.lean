import Lumina.Knowledge.Interference
import Lumina.Knowledge.Profiles
import Lumina.Knowledge.Versions
import Lumina.Library.Protocol

/-!
# What an embedding task does to a document that has moved on

A task loads its document once and goes by the version that it has found.  The status writes that
enter the embedding, promote the document or record a permanent failure expect this version, so they
miss a row that has another one.  The record of the last retry has no version at hand and goes by
the status only.

The version that a task has loaded is no part of the state.  It is followed along a run, beside it.
-/

namespace Lumina.Knowledge

open Interleaving Transition

/-! ### What the running activities have seen -/

section

variable {σ : Type} (cfg : Settings) (start : σ)
  (next : σ → (op : Op) → Except Exn op.Reply → σ)

/-- What each of the running activities has seen after an action. -/
def seenStep (w : World) (a : Action) (seen : List σ) : List σ :=
  match a with
  | .request _ => seen ++ [start]
  | .deliver _ _ => seen ++ [start]
  | .crash i => seen.eraseIdx i
  | .finish i => seen.eraseIdx i
  | .work i answer =>
      match w.running[i]? with
      | some { message := me, code := .call op _ } =>
          match w.shared.perform cfg me op answer with
          | some (r, _) => seen.modify i fun s => next s op r
          | none => seen
      | _ => seen
  | _ => seen

/-- What each of the running activities has seen after the steps of a history. -/
def seenAfter : List (World × Action) → List σ
  | [] => []
  | (w, a) :: h => seenStep cfg start next w a (seenAfter h)

end

section

variable {σ : Type} {cfg : Settings} {start : σ}
  {next : σ → (op : Op) → Except Exn op.Reply → σ} {allows : Option Message → σ → Op → Prop}

/-- Each activity follows its protocol from what it has seen on. -/
structure Observed (allows : Option Message → σ → Op → Prop)
    (next : σ → (op : Op) → Except Exn op.Reply → σ) (running : List Activity) (seen : List σ) :
    Prop where
  length : seen.length = running.length
  follows : ∀ (i : ℕ) activity s, running[i]? = some activity → seen[i]? = some s →
    Protocol.Follows ⟨allows activity.message, next⟩ activity.code s

theorem Observed.concat {running : List Activity} {seen : List σ}
    (h : Observed allows next running seen) {new : Activity} {s : σ}
    (follows : Protocol.Follows ⟨allows new.message, next⟩ new.code s) :
  Observed allows next (running ++ [new]) (seen ++ [s])
  := by
  constructor
  · rw [List.length_append, List.length_append, h.length]
    rfl
  · intro i activity s' hactivity hs
    have below := (List.getElem?_eq_some_iff.mp hs).1
    obtain old | ⟨rfl, rfl⟩ := Table.of_getElem?_concat hactivity
    · have lt := (List.getElem?_eq_some_iff.mp old).1
      rw [List.getElem?_append_left (h.length ▸ lt)] at hs
      exact h.follows i activity s' old hs
    · rw [← h.length, List.getElem?_concat_length] at hs
      rw [← Option.some.inj hs]
      exact follows

theorem Observed.eraseIdx {running : List Activity} {seen : List σ}
    (h : Observed allows next running seen) (i : ℕ) :
  Observed allows next (running.eraseIdx i) (seen.eraseIdx i)
  := by
  constructor
  · rw [List.length_eraseIdx, List.length_eraseIdx, h.length]
  · intro j activity s hactivity hs
    rw [List.getElem?_eraseIdx] at hactivity hs
    split at hactivity
    next before =>
      rw [if_pos before] at hs
      exact h.follows j activity s hactivity hs
    next after =>
      rw [if_neg after] at hs
      exact h.follows (j + 1) activity s hactivity hs

theorem Observed.work {running : List Activity} {seen : List σ}
    (h : Observed allows next running seen) {i : ℕ} {me : Option Message} {op : Op}
    {code : Except Exn op.Reply → Prog Unit}
    (hi : running[i]? = some { message := me, code := .call op code })
    (r : Except Exn op.Reply) :
  Observed allows next (running.set i { message := me, code := code r })
    (seen.modify i fun s => next s op r)
  := by
  constructor
  · rw [List.length_modify, List.length_set, h.length]
  · intro j activity s hactivity hs
    obtain ⟨rfl, rfl⟩ | ⟨ne, old⟩ := Table.of_getElem?_set hactivity
    · rw [List.getElem?_modify_eq] at hs
      obtain ⟨before, hbefore, rfl⟩ := Option.map_eq_some_iff.mp hs
      exact (h.follows j _ before hi hbefore).2 r
    · rw [List.getElem?_modify_ne _ _ (Ne.symm ne)] at hs
      exact h.follows j activity s old hs

/-- In a run, each activity follows its protocol from what it has seen on. -/
theorem observed_of_run
    (begins : ∀ s activity, Begins cfg s activity →
      Protocol.Follows ⟨allows activity.message, next⟩ activity.code start)
    {h : List (World × Action)} {w : World} (run : (system cfg).Run h w) :
  Observed allows next w.running (seenAfter cfg start next h)
  := by
  induction run with
  | init hs =>
    obtain ⟨_, _, rfl⟩ := hs
    exact ⟨rfl, nofun⟩
  | @step h w w' a run hstep ih =>
    change World.step cfg a w = some w' at hstep
    change Observed allows next w'.running (seenStep cfg start next w a _)
    cases a with
    | request r =>
      cases hstep
      exact ih.concat (begins w.shared _ (.request r))
    | deliver i batches =>
      simp only [World.step, Option.bind_eq_bind, Option.bind_eq_some_iff] at hstep
      obtain ⟨message, hmessage, hstep⟩ := hstep
      cases hstep
      exact ih.concat (begins w.shared _ (.deliver batches (List.mem_of_getElem? hmessage)))
    | crash i =>
      simp only [World.step, Option.bind_eq_bind, Option.bind_eq_some_iff] at hstep
      obtain ⟨activity, -, hstep⟩ := hstep
      cases hstep
      exact ih.eraseIdx i
    | finish i =>
      simp only [World.step, Option.bind_eq_bind, Option.bind_eq_some_iff] at hstep
      obtain ⟨activity, -, hstep⟩ := hstep
      split at hstep
      · cases hstep
      · cases hstep
        exact ih.eraseIdx i
    | work i answer =>
      obtain ⟨me, op, code, r, t, hactivity, hperform, rfl⟩ := step_work hstep
      simp only [seenStep, hactivity, hperform]
      exact ih.work hactivity r
    | duplicate i =>
      simp only [World.step, Option.bind_eq_bind, Option.bind_eq_some_iff] at hstep
      obtain ⟨message, -, hstep⟩ := hstep
      cases hstep
      exact ih
    | redeliver i =>
      simp only [World.step, Option.bind_eq_bind, Option.bind_eq_some_iff] at hstep
      obtain ⟨activity, -, message, -, hstep⟩ := hstep
      cases hstep
      exact ih
    | tick seconds =>
      cases hstep
      exact ih
    | expire requested =>
      cases hstep
      exact ih

end

/-! ### What an embedding task may write -/

/-- The record of a task whose attempts are used up.  It expects a status of the row. -/
structure StatusUpdate.RecordsExhausted (u : StatusUpdate) (document : DocumentId) : Prop where
  document : u.document = document
  status : u.status = .failed
  attempts : ∃ error, u.error = some error ∧ error.attempts.isSome
  expected : u.expectedStatus = some [.chunked, .embedding]

/-- A document and the version of it that a task has loaded last, after a reply. -/
def loadedNext (loaded : Option (DocumentId × ℕ)) :
    (op : Op) → Except Exn op.Reply → Option (DocumentId × ℕ)
  | .tx (.loadEmbedTarget _), .ok target => some (target.documentId, target.docVersion)
  | _, _ => loaded

/-- An embedding task writes the status of the version that it has loaded, or records that its
attempts are used up. -/
def embeddingAllows (me : Option Message) (loaded : Option (DocumentId × ℕ)) (op : Op) : Prop :=
  ∀ message document, me = some message → message.task = .embedDocument document →
    op.byEmbedding ∧ ∀ u, op = .tx (.setStatus u) →
      u.RecordsExhausted document ∨
        ∃ docVersion, loaded = some (u.document, docVersion) ∧
          u.expectedDocVersion = some docVersion

/-- For each running activity, the document and version that it has loaded for embedding. -/
def loadedVersions (cfg : Settings) (h : List (World × Action)) :
    List (Option (DocumentId × ℕ)) :=
  seenAfter cfg none loadedNext h

/-- An operation of a task that has loaded a target. -/
structure OfTarget (target : EmbedTarget) (op : Op) : Prop where
  byEmbedding : op.byEmbedding
  loaded : ∀ document, op ≠ .tx (.loadEmbedTarget document)
  current : ∀ u, op = .tx (.setStatus u) →
    u.document = target.documentId ∧ u.expectedDocVersion = some target.docVersion

theorem ofTarget_of_ne {target : EmbedTarget} {op : Op} (h : op.byEmbedding)
    (load : ∀ document, op ≠ .tx (.loadEmbedTarget document)) (write : ∀ u, op ≠ .tx (.setStatus u)) :
  OfTarget target op
  :=
  ⟨h, load, fun u hu => absurd hu (write u)⟩

theorem ofTarget_of_byBatch {target : EmbedTarget} {op : Op} (h : op.byBatch) :
  OfTarget target op
  := by
  apply ofTarget_of_ne (byEmbedding_of_byBatch h)
  · rintro document rfl
    cases h
  · rintro u rfl
    cases h

theorem uses_setStatus {target : EmbedTarget} {u : StatusUpdate}
    (document : u.document = target.documentId)
    (docVersion : u.expectedDocVersion = some target.docVersion) :
  (tx (.setStatus u)).Uses (OfTarget target)
  := by
  apply uses_tx
  refine ⟨rfl, nofun, ?_⟩
  rintro _ ⟨⟩
  exact ⟨document, docVersion⟩

theorem uses_job {target : EmbedTarget} {t : Tx}
    (h : (∃ key, t = .beginJob key) ∨ ∃ key status error, t = .finishJob key status error) :
  (tx t).Uses (OfTarget target)
  := by
  apply uses_tx
  obtain ⟨key, rfl⟩ | ⟨key, status, error, rfl⟩ := h
  · exact ofTarget_of_ne rfl nofun nofun
  · exact ofTarget_of_ne rfl nofun nofun

section

open EmbeddingService

variable (target : EmbedTarget)

theorem promote_ofTarget (embedded : ℕ) : (promote target embedded).Uses (OfTarget target) := by
  refine Program.Uses.bind' (uses_job (.inr ⟨_, _, _, rfl⟩)) ?_
  intro _
  refine Program.Uses.bind' (uses_setStatus rfl rfl) ?_
  intro promoted
  split
  · trivial
  · trivial

theorem embeddingFailed_ofTarget (e : Exn) :
  (embeddingFailed target e).Uses (OfTarget target)
  := by
  unfold embeddingFailed
  split
  · refine Program.Uses.bind' (uses_job (.inr ⟨_, _, _, rfl⟩)) ?_
    intro _
    refine Program.Uses.bind' (uses_setStatus rfl rfl) ?_
    intro marked
    split
    · trivial
    · trivial
  · refine Program.Uses.bind' (uses_job (.inr ⟨_, _, _, rfl⟩)) ?_
    intro _
    trivial

end

/-- The protocol of an activity that runs an embedding task. -/
abbrev embeddingProtocol (message : Message) :
    Protocol Op.Reply Exn (Option (DocumentId × ℕ)) :=
  ⟨embeddingAllows (some message), loadedNext⟩

section

variable {message : Message} {document : DocumentId}

/-- What a task that has loaded a target does with it is allowed. -/
theorem follows_of_ofTarget {α : Type} {target : EmbedTarget} {p : Prog α}
    (h : p.Uses (OfTarget target)) :
  (embeddingProtocol message).Follows p (some (target.documentId, target.docVersion))
  := by
  apply Protocol.follows_of_uses h
  · rintro op hop _ _ ⟨⟩ _
    refine ⟨hop.byEmbedding, ?_⟩
    intro u hu
    obtain ⟨same, expected⟩ := hop.current u hu
    exact Or.inr ⟨target.docVersion, by rw [same], expected⟩
  · intro op hop r
    change loadedNext _ op r = _
    unfold loadedNext
    split
    · exact absurd rfl (hop.loaded _)
    · rfl

theorem follows_embedDocument (batches : ℕ) (seen : Option (DocumentId × ℕ)) :
  (embeddingProtocol message).Follows (EmbeddingService.embedDocument batches document) seen
  := by
  apply Protocol.Follows.perform
  · exact fun _ _ _ _ => ⟨rfl, nofun⟩
  · intro target
    apply follows_of_ofTarget
    split
    · trivial
    · refine Program.Uses.bind' (uses_job (.inl ⟨_, rfl⟩)) ?_
      intro _
      refine Program.Uses.bind' (uses_setStatus rfl rfl) ?_
      intro moved
      split
      · trivial
      · have inBatches : (EmbeddingService.embedPending batches target).Uses (OfTarget target) :=
          (uses_embedPending batches target).mono fun _ => ofTarget_of_byBatch
        apply inBatches.attempt.bind'
        intro r
        cases r with
        | ok embedded => apply promote_ofTarget
        | error e => apply embeddingFailed_ofTarget

theorem follows_markRetriesExhausted (task : message.task = .embedDocument document) (e : Exn)
    (attempts : ℕ) (seen : Option (DocumentId × ℕ)) :
  (embeddingProtocol message).Follows
    (EmbeddingService.markRetriesExhausted document e attempts) seen
  := by
  apply Protocol.Follows.perform
  · rintro _ document' ⟨⟩ task'
    cases task.symm.trans task'
    refine ⟨rfl, ?_⟩
    rintro _ ⟨⟩
    left
    exact ⟨rfl, rfl, ⟨_, rfl, rfl⟩, rfl⟩
  · exact fun _ => trivial

/-- Whatever a task has loaded, it may do anything but write a status. -/
theorem allows_of_ne {seen : Option (DocumentId × ℕ)} {op : Op} (h : op.byEmbedding)
    (write : ∀ u, op ≠ .tx (.setStatus u)) :
  (embeddingProtocol message).allows seen op
  :=
  fun _ _ _ _ => ⟨h, fun u hu => absurd hu (write u)⟩

/-- The whole task. -/
theorem follows_embedTask (cfg : Settings) (batches : ℕ)
    (task : message.task = .embedDocument document) (seen : Option (DocumentId × ℕ)) :
  (embeddingProtocol message).Follows
    (Lumina.Knowledge.embedDocument cfg batches message document) seen
  := by
  refine Protocol.Follows.perform (allows_of_ne rfl nofun) ?_
  intro granted
  split
  · apply Protocol.Follows.ensure
    · apply Protocol.Follows.bind
      · apply Protocol.Follows.attempt
        apply (follows_embedDocument batches _).bind
        exact fun _ _ => trivial
      · intro r seen
        cases r with
        | ok status => trivial
        | error e =>
          dsimp only
          split
          · trivial
          · split
            · apply (follows_markRetriesExhausted task e _ seen).bind
              exact fun _ _ => trivial
            · refine Protocol.Follows.perform (allows_of_ne rfl nofun) ?_
              exact fun _ => trivial
    · exact fun _ => Protocol.follows_perform (allows_of_ne rfl nofun)
  · refine Protocol.Follows.perform (allows_of_ne rfl nofun) ?_
    exact fun _ => trivial

end

/-! ### What an embedding task changes -/

theorem follows_of_begins {cfg : Settings} {s : Shared} {activity : Activity}
    (h : Begins cfg s activity) :
  Protocol.Follows ⟨embeddingAllows activity.message, loadedNext⟩ activity.code none
  := by
  cases h with
  | request r =>
    apply Protocol.follows_of_allowed
    rintro _ _ _ _ ⟨⟩
  | @deliver message batches queued =>
    cases task : message.task with
    | embedDocument document =>
      apply Protocol.Follows.bind
      · unfold Message.code
        rw [task]
        exact follows_embedTask cfg batches task none
      · exact fun _ _ => trivial
    | _ =>
      apply Protocol.follows_of_allowed
      rintro _ _ _ document ⟨⟩ other
      cases task.symm.trans other

/-- An operation of an embedding task writes no document, or it writes a status. -/
theorem documents_of_byEmbedding {cfg : Settings} {me : Option Message} {op : Op} {answer : Answer}
    {s t : Shared} {r : Except Exn op.Reply} (h : op.byEmbedding)
    (hperform : s.perform cfg me op answer = some (r, t)) :
  t.db.documents = s.db.documents ∨
    ∃ u, op = .tx (.setStatus u) ∧
      t.db.documents = Table.update u.hits (u.write s.now) s.db.documents
  := by
  obtain same | ⟨x, rfl, rfl, r', hcommit⟩ := Shared.perform_db hperform
  · left
    rw [same]
  · generalize t.db = db' at *
    cases transact_effect hcommit with
    | plain plain data => exact Or.inl (congrArg Db.documents data :)
    | upsert writes exist distinct data => exact Or.inl (congrArg Db.documents data :)
    | setStatus u => exact Or.inr ⟨u, rfl, rfl⟩
    | _ => cases h

/-- An embedding task performs an operation. -/
structure EmbeddingStep (cfg : Settings) (i : ℕ) (message : Message) (document : DocumentId)
    (w w' : World) : Prop where
  task : message.task = .embedDocument document
  running : ∃ code, w.running[i]? = some { message := some message, code := code }
  step : ∃ answer, World.step cfg (.work i answer) w = some w'

/-- The row has got another status or another error. -/
structure Rewritten (d d' : Document) : Prop where
  id : d'.id = d.id
  changed : d'.status ≠ d.status ∨ d'.error ≠ d.error

/-- The row has been marked as failed, by the status that it had, after the last attempt. -/
structure Exhausted (document : DocumentId) (d d' : Document) : Prop where
  id : d.id = document
  before : d.status = .chunked ∨ d.status = .embedding
  after : d'.status = .failed
  attempts : ∃ error, d'.error = some error ∧ error.attempts.isSome

theorem exhausted_of_hits {u : StatusUpdate} {document : DocumentId} {d : Document} {now : ℕ}
    (h : u.RecordsExhausted document) (hits : u.hits d) :
  Exhausted document d (u.write now d)
  := by
  obtain ⟨rfl, status, attempts, expected⟩ := h
  unfold StatusUpdate.hits at hits
  simp only [expected, Bool.and_eq_true, decide_eq_true_eq, Option.all_some, List.mem_cons,
    List.not_mem_nil, or_false] at hits
  exact ⟨hits.1.1.2, hits.1.2, status, attempts⟩

theorem version_of_hits {u : StatusUpdate} {d : Document} {docVersion : ℕ}
    (expected : u.expectedDocVersion = some docVersion) (hits : u.hits d) :
  (u.document, docVersion) = (d.id, d.docVersion)
  := by
  unfold StatusUpdate.hits at hits
  simp only [expected, Bool.and_eq_true, decide_eq_true_eq, Option.all_some] at hits
  rw [hits.1.1.2, hits.2]

/-- In a run, an embedding task changes the status or the error of a row only if it has loaded the
version that the row still has, or if it records that its attempts are used up, of a row that is
waiting for an embedding or being embedded. -/
theorem embedding_changes_loaded {cfg : Settings} {h : List (World × Action)} {w w' : World}
    (run : (system cfg).Run h w) {i : ℕ} {message : Message} {document : DocumentId}
    (step : EmbeddingStep cfg i message document w w') :
  ∀ d ∈ w.shared.db.documents, ∀ d' ∈ w'.shared.db.documents, Rewritten d d' →
    (loadedVersions cfg h)[i]? = some (some (d.id, d.docVersion)) ∨ Exhausted document d d'
  := by
  intro d hd d' hd' rewritten
  have ids := (wellFormed_of_run run w List.mem_cons_self).documentIds
  obtain ⟨task, ⟨code, running⟩, answer, hstep⟩ := step
  obtain ⟨me, op, next, r, t, hactivity, hperform, rfl⟩ := step_work hstep
  obtain ⟨rfl, rfl⟩ := Activity.mk.inj (Option.some.inj (running.symm.trans hactivity))
  have observed := observed_of_run (fun s activity => follows_of_begins) run
  have below : i < (loadedVersions cfg h).length := by
    unfold loadedVersions
    rw [observed.length]
    exact (List.getElem?_eq_some_iff.mp hactivity).1
  obtain ⟨loaded, seen⟩ : ∃ loaded, (loadedVersions cfg h)[i]? = some loaded :=
    ⟨_, List.getElem?_eq_getElem below⟩
  obtain ⟨byEmbedding, writes⟩ :=
    (observed.follows i _ loaded hactivity seen).1 message document rfl task
  have unchanged (same : d' ∈ w.shared.db.documents) : False := by
    cases Table.eq_of_key ids same hd rewritten.id
    exact rewritten.changed.elim (absurd rfl) (absurd rfl)
  obtain same | ⟨u, rfl, updated⟩ := documents_of_byEmbedding byEmbedding hperform
  · rw [same] at hd'
    exact (unchanged hd').elim
  · rw [updated] at hd'
    obtain ⟨old, hold, rfl⟩ := Table.mem_update.mp hd'
    split at rewritten
    next hits =>
      have found : old = d := Table.eq_of_key ids hold hd rewritten.id
      subst found
      rw [if_pos hits]
      obtain exhausted | ⟨docVersion, rfl, expected⟩ := writes u rfl
      · exact Or.inr (exhausted_of_hits exhausted hits)
      · left
        rw [seen, version_of_hits expected hits]
    next missed =>
      rw [if_neg missed] at hd' unchanged
      exact (unchanged hold).elim

/-- A computed run, and the next operation of an embedding task after it. -/
theorem exists_embeddingStep (as : List Action) (document : DocumentId)
    (p : Message → World → World → Bool)
    (hexec : ((system sampleSettings).exec as sampleWorld).any (fun w =>
      (w.running[0]?.bind (·.message)).any fun message =>
        decide (message.task = .embedDocument document) &&
          (World.step sampleSettings (.work 0 .done) w).any (p message w)) = true) :
  ∃ h w w' message, (system sampleSettings).Run h w ∧
    EmbeddingStep sampleSettings 0 message document w w' ∧ p message w w' = true
  := by
  obtain ⟨h, w, run, hw⟩ := Machine.exists_run_of_exec as _ sampleWorld_initial hexec
  obtain ⟨message, hmessage, hw⟩ := Option.any_eq_true _ _ |>.mp hw
  obtain ⟨⟨me, code⟩, running, hme⟩ := Option.bind_eq_some_iff.mp hmessage
  rw [Bool.and_eq_true, decide_eq_true_eq] at hw
  obtain ⟨w', step, hp⟩ := Option.any_eq_true _ _ |>.mp hw.2
  cases hme
  exact ⟨h, w, w', message, run, ⟨hw.1, ⟨code, running⟩, .done, step⟩, hp⟩

/-- The message for the first version is delivered when the second one has been cut. -/
def sentBeforeReingest : List Action :=
  ingestSample ++ requests 0 3 (.reingest 7) ++ .deliver 1 0 :: works 0 18 ++
    .finish 0 :: .deliver 0 0 :: works 0 3

theorem embedding_changes_loaded_sentBeforeReingest :
  ∃ h w w' message, (system sampleSettings).Run h w ∧ message.sentFor = 1 ∧
    EmbeddingStep sampleSettings 0 message 7 w w' ∧
    ∀ d ∈ w.shared.db.documents, ∀ d' ∈ w'.shared.db.documents, Rewritten d d' →
      (loadedVersions sampleSettings h)[0]? = some (some (d.id, d.docVersion)) ∨ Exhausted 7 d d'
  := by
  obtain ⟨h, w, w', message, run, step, hp⟩ := exists_embeddingStep sentBeforeReingest 7
    (fun message _ _ => decide (message.sentFor = 1)) (by decide)
  exact ⟨h, w, w', message, run, of_decide_eq_true hp, step, embedding_changes_loaded run step⟩

/-- No task that was sent for an earlier version of a row, or has loaded one, changes the row. -/
def EarlierInert (cfg : Settings) : Prop :=
  ∀ h w w' i message document, (system cfg).Run h w → EmbeddingStep cfg i message document w w' →
    ∀ d ∈ w.shared.db.documents, ∀ d' ∈ w'.shared.db.documents, Rewritten d d' → ∀ docVersion,
      message.sentFor = docVersion ∨
        (loadedVersions cfg h)[i]? = some (some (d.id, docVersion)) →
      ¬docVersion < d.docVersion

/-- No task that was sent for the version of a ready row marks it as failed. -/
def ReadyStays (cfg : Settings) : Prop :=
  ∀ h w w' i message document, (system cfg).Run h w → EmbeddingStep cfg i message document w w' →
    ∀ d ∈ w.shared.db.documents, ∀ d' ∈ w'.shared.db.documents, Rewritten d d' →
      message.sentFor = d.docVersion → d.status = .ready → d'.status ≠ .failed

/-- A second delivery of the message has begun before the first one makes the document ready, and
gets a refusal of the provider afterwards. -/
def readyMeanwhile : List Action :=
  ingestSample ++ .duplicate 0 :: .deliver 0 1 :: works 0 6 ++ .deliver 0 1 :: works 1 6 ++
    .work 1 (.reported "m") :: works 1 3 ++
    [.work 0 (.raised (.domain { cls := .provider .auth, message := "" })), .work 0 .done]

/-- The message has the document only, so its task works on the version that it finds; and a
permanent failure is recorded whatever the status is. -/
theorem not_earlierInert_not_readyStays :
  ¬EarlierInert sampleSettings ∧ ¬ReadyStays sampleSettings
  := by
  constructor
  · obtain ⟨h, w, w', message, run, step, hp⟩ := exists_embeddingStep sentBeforeReingest 7
      (fun message w w' => decide (message.sentFor = 1 ∧ ∃ d ∈ w.shared.db.documents,
        ∃ d' ∈ w'.shared.db.documents, d'.id = d.id ∧ d'.status ≠ d.status ∧ 1 < d.docVersion))
      (by decide)
    obtain ⟨sent, d, hd, d', hd', id, status, later⟩ := of_decide_eq_true hp
    intro claim
    exact claim h w w' 0 message 7 run step d hd d' hd' ⟨id, .inl status⟩ 1 (.inl sent) later
  · obtain ⟨h, w, w', message, run, step, hp⟩ := exists_embeddingStep readyMeanwhile 7
      (fun message w w' => decide (∃ d ∈ w.shared.db.documents, ∃ d' ∈ w'.shared.db.documents,
        d'.id = d.id ∧ message.sentFor = d.docVersion ∧ d.status = .ready ∧ d'.status = .failed))
      (by decide)
    obtain ⟨d, hd, d', hd', id, sent, ready, failed⟩ := of_decide_eq_true hp
    have changed : d'.status ≠ d.status := by
      rw [ready, failed]
      nofun
    intro claim
    exact claim h w w' 0 message 7 run step d hd d' hd' ⟨id, .inl changed⟩ sent ready failed

end Lumina.Knowledge
