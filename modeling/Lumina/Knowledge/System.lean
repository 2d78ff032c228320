import Lumina.Knowledge.Worker
import Lumina.Library.Transition

/-!
# The system

Users, workers and the broker of one tenant.  Every request and every delivered message is an
activity with a program of its own; a step of the system performs one operation of one activity,
so the programs interleave in every order.  The broker delivers at least once: a message is
gone when its activity has ended, it is back in the queue when its worker has crashed, and it
may be delivered another time in between.  Any queued message may be delivered next, so a delay
makes no difference.
-/

namespace Lumina.Knowledge

open Interleaving Transition

/-- What can be asked of the services from outside. -/
inductive Request where
  | upload (kb : KbId) (id : DocumentId) (content mediaType : String)
  | reingest (document : DocumentId)
  | delete (document : DocumentId)
  | rescue
  | startReindex (kb : KbId) (targetModel : Option String) (rechunk : Option Bool)
deriving DecidableEq, Repr

def Request.code (cfg : Settings) : Request → Prog Unit
  | .upload kb id content mediaType => DocumentService.upload cfg kb id content mediaType
  | .reingest document => DocumentService.reingest cfg document
  | .delete document => DocumentService.delete document
  | .rescue => StuckDocumentRescueService.rescueTenant cfg
  | .startReindex kb targetModel rechunk => KbReindexService.start kb targetModel rechunk

/-- A request or a delivered message, and what is still to be done for it. -/
structure Activity where
  message : Option Message := none
  code : Prog Unit

/-- A message in the hands of a worker. -/
def Activity.ofMessage (cfg : Settings) (batches : ℕ) (message : Message) : Activity where
  message := message
  code := do
    let _ ← message.code cfg batches
    pure ()

structure World where
  shared : Shared := {}
  running : List Activity := []

inductive Action where
  | request (r : Request)
  /-- A queued message is taken by a worker. -/
  | deliver (i : ℕ) (batches : ℕ)
  /-- A queued message is there twice. -/
  | duplicate (i : ℕ)
  /-- The message of a running task is delivered again. -/
  | redeliver (i : ℕ)
  /-- The process of an activity dies. -/
  | crash (i : ℕ)
  /-- The next operation of an activity. -/
  | work (i : ℕ) (answer : Answer)
  /-- An activity has ended; its message is acknowledged. -/
  | finish (i : ℕ)
  | tick (seconds : ℕ)
  /-- A remembered model name is forgotten. -/
  | expire (requested : String)

namespace World

/-- Another copy of a message, in the queue. -/
def copy (message : Message) (s : Shared) : Shared :=
  s.send message.task message.retries message.sentFor

/-- The step of one action, if it is possible. -/
def step (cfg : Settings) : Action → World → Option World
  | .request r, w => some { w with running := w.running ++ [{ code := r.code cfg }] }
  | .deliver i batches, w => do
      let message ← w.shared.queue[i]?
      some
        { shared := { w.shared with queue := w.shared.queue.eraseIdx i }
          running := w.running ++ [.ofMessage cfg batches message] }
  | .duplicate i, w => do
      let message ← w.shared.queue[i]?
      some { w with shared := copy message w.shared }
  | .redeliver i, w => do
      let activity ← w.running[i]?
      let message ← activity.message
      some { w with shared := copy message w.shared }
  | .crash i, w => do
      let activity ← w.running[i]?
      some
        { shared := { w.shared with queue := w.shared.queue ++ activity.message.toList }
          running := w.running.eraseIdx i }
  | .work i answer, w => do
      let activity ← w.running[i]?
      match activity.code with
      | .call op next => do
          let (reply, shared) ← w.shared.perform cfg activity.message op answer
          some
            { shared := shared
              running := w.running.set i { activity with code := next reply } }
      | _ => none
  | .finish i, w => do
      let activity ← w.running[i]?
      match activity.code with
      | .call _ _ => none
      | _ => some { w with running := w.running.eraseIdx i }
  | .tick seconds, w =>
      some { w with shared := { w.shared with now := w.shared.now + seconds } }
  | .expire requested, w =>
      some
        { w with
          shared :=
            { w.shared with aliases := w.shared.aliases.filter (·.1 ≠ requested) } }

/-- The database before anything has been uploaded: some knowledge bases. -/
def Initial (w : World) : Prop :=
  ∃ knowledgeBases : List KnowledgeBase,
    (knowledgeBases.map (·.id)).Nodup ∧
      w = { shared := { db := { knowledgeBases := knowledgeBases } } }

end World

/-- The system under some settings. -/
def system (cfg : Settings) : Machine World Action where
  init := World.Initial
  step := World.step cfg

/-! ### Small runs -/

/-- A document of one paragraph. -/
def paragraph (text : String) : ExtractedDoc where
  blocks := [{ type := .paragraph, text := text, position := { order := 0 } }]

/-- Settings for small runs: a document is one paragraph and one chunk, or nothing at all. -/
def sampleSettings : Settings where
  etl :=
    { extractIsolated := fun content _ => .ok (paragraph content)
      clean := fun doc =>
        match doc.blocks with
        | [] => paragraph ""
        | block :: _ => paragraph block.text
      chunkDocument := fun doc _ =>
        match doc.blocks with
        | [] => []
        | block :: _ =>
            if block.text = "" then []
            else
              [{ seq := 0
                 text := block.text
                 tokenCount := 1
                 page := none
                 headingPath := [] }]
      toJson := fun doc =>
        match doc.blocks with
        | [] => ""
        | block :: _ => block.text
      fromJson := fun text => .ok (paragraph text) }
  chunkConfigFrom := fun _ => {}
  sha256 := id
  aiEmbeddingModel := "m"
  etlInProgressStaleSeconds := 100
  etlStuckAfterSeconds := 10
  etlFairnessRequeueSeconds := 5
  reindexPollSeconds := 5

/-- One empty knowledge base. -/
def sampleWorld : World :=
  { shared := { db := { knowledgeBases := [{ id := 1 }] } } }

theorem sampleWorld_initial : World.Initial sampleWorld :=
  ⟨[{ id := 1 }], by decide, rfl⟩

/-- The next `n` operations of an activity are done. -/
def works (i n : ℕ) : List Action :=
  List.replicate n (.work i .done)

/-- A request that nothing interferes with, beside `i` other activities: `n` operations. -/
def requests (i n : ℕ) (r : Request) : List Action :=
  .request r :: works i n ++ [.finish i]

/-- A document is uploaded; its message is in the queue. -/
def uploadSample (content : String) : List Action :=
  requests 0 4 (.upload 1 7 content "text/plain")

/-! ### The transactions of a run -/

/-- The operation that an action performs. -/
def Action.operation : Action → World → Option Op
  | .work i _, w =>
      match w.running[i]? with
      | some { code := .call op _, .. } => some op
      | _ => none
  | _, _ => none

/-- An action executes a transaction, which commits and leaves a new database. -/
structure Commits (cfg : Settings) (w : World) (a : Action) (t : Tx) (db : Db) : Prop where
  operation : a.operation w = some (.tx t)
  done : ∃ i, a = .work i .done
  commit : ∃ r, transact cfg w.shared.now t w.shared.db = .ok (r, db)

/-- The database changes only by a transaction that commits. -/
theorem Shared.perform_db {cfg : Settings} {me : Option Message} {op : Op} {answer : Answer}
    {s s' : Shared} {r : Except Exn op.Reply} (h : s.perform cfg me op answer = some (r, s')) :
  s'.db = s.db ∨
    ∃ t, op = .tx t ∧ answer = .done ∧ ∃ r', transact cfg s.now t s.db = .ok (r', s'.db)
  := by
  unfold perform at h
  split at h
  next t =>
    split at h
    next r' db hcommit =>
      cases h
      right
      exact ⟨t, rfl, rfl, r', hcommit⟩
    next =>
      cases h
      left
      rfl
  all_goals
    left
    try split at h
    all_goals try split at h
    all_goals cases h
    all_goals rfl

/-- An exception from outside leaves everything as it is. -/
theorem Shared.perform_raised {cfg : Settings} {me : Option Message} {op : Op} {e : Exn}
    {s t : Shared} {r : Except Exn op.Reply} (h : s.perform cfg me op (.raised e) = some (r, t)) :
  r = .error e ∧ t = s
  := by
  have raised : s.perform cfg me op (.raised e) =
      if op.mayRaise e then some (.error e, s) else none := by
    cases op with
    | _ => rfl
  rw [raised] at h
  split_ifs at h
  cases h
  exact ⟨rfl, rfl⟩

/-- What a transaction that has been performed returns. -/
theorem Shared.perform_tx {cfg : Settings} {me : Option Message} {answer : Answer} {s t : Shared}
    {x : Tx} {a : x.Reply} (h : s.perform cfg me (.tx x) answer = some (.ok a, t)) :
  transact cfg s.now x s.db = .ok (a, t.db)
  := by
  cases answer with
  | done =>
    simp only [Shared.perform] at h
    split at h
    next r db hcommit =>
      cases h
      apply hcommit
    next => cases h
  | raised e => cases (Shared.perform_raised h).1
  | denied => cases h
  | reported model => cases h

/-- A transaction fails by itself, or when an exception comes from outside. -/
theorem Shared.perform_tx_error {cfg : Settings} {me : Option Message} {x : Tx} {answer : Answer}
    {s t : Shared} {e : Exn} (h : s.perform cfg me (.tx x) answer = some (.error e, t)) :
  (∃ e', answer = .raised e') ∨ (answer = .done ∧ transact cfg s.now x s.db = .error e)
  := by
  cases answer with
  | raised e' =>
    left
    exact ⟨e', rfl⟩
  | done =>
    right
    simp only [Shared.perform] at h
    split at h
    next => cases h
    next e' failed =>
      cases h
      exact ⟨rfl, failed⟩
  | denied => cases h
  | reported model => cases h

/-- A step of the system commits a transaction, or leaves the database as it is. -/
theorem step_db {cfg : Settings} {w w' : World} {a : Action} (h : World.step cfg a w = some w') :
  w'.shared.db = w.shared.db ∨ ∃ t, Commits cfg w a t w'.shared.db
  := by
  cases a with
  | work i answer =>
    simp only [World.step, Option.bind_eq_bind, Option.bind_eq_some_iff] at h
    obtain ⟨activity, hactivity, h⟩ := h
    split at h
    next op next hcode =>
      simp only [Option.bind_eq_some_iff] at h
      obtain ⟨⟨r, s'⟩, hperform, h⟩ := h
      cases h
      obtain same | ⟨t, rfl, rfl, r', hcommit⟩ := Shared.perform_db hperform
      · left
        apply same
      · right
        use t
        constructor
        · obtain ⟨message, code⟩ := activity
          cases hcode
          simp only [Action.operation, hactivity]
        · use i
        · exact ⟨r', hcommit⟩
    next => cases h
  | _ =>
    left
    simp only [World.step, Option.bind_eq_bind, Option.bind_eq_some_iff] at h
    first
      | cases h
        rfl
      | obtain ⟨_, _, h⟩ := h
        first
          | cases h
            rfl
          | obtain ⟨_, _, h⟩ := h
            cases h
            rfl
          | split at h
            all_goals cases h
            all_goals rfl

/-- An action commits one transaction at most, with one result. -/
theorem Commits.unique {cfg : Settings} {w : World} {a : Action} {t t' : Tx} {db db' : Db}
    (h : Commits cfg w a t db) (h' : Commits cfg w a t' db') :
  t' = t ∧ db' = db
  := by
  have same : some (Op.tx t) = some (Op.tx t') := h.operation.symm.trans h'.operation
  cases same
  obtain ⟨r, hr⟩ := h.commit
  obtain ⟨r', hr'⟩ := h'.commit
  cases hr.symm.trans hr'
  exact ⟨rfl, rfl⟩

/-- An action that commits is possible. -/
theorem Commits.possible {cfg : Settings} {w : World} {a : Action} {t : Tx} {db : Db}
    (h : Commits cfg w a t db) :
  ∃ w', World.step cfg a w = some w'
  := by
  obtain ⟨i, rfl⟩ := h.done
  obtain ⟨r, hr⟩ := h.commit
  have hop := h.operation
  simp only [Action.operation] at hop
  split at hop
  next op next message hactivity =>
    cases hop
    simp only [World.step, Option.bind_eq_bind, hactivity, Option.bind_some, Shared.perform, hr]
    exact ⟨_, rfl⟩
  next => cases hop

/-- The step of an action that commits leads to the database of the commit. -/
theorem Commits.step {cfg : Settings} {w w' : World} {a : Action} {t : Tx} {db : Db}
    (h : Commits cfg w a t db) (hstep : World.step cfg a w = some w') :
  w'.shared.db = db
  := by
  obtain ⟨i, rfl⟩ := h.done
  obtain ⟨r, hr⟩ := h.commit
  have hop := h.operation
  simp only [Action.operation] at hop
  simp only [World.step, Option.bind_eq_bind, Option.bind_eq_some_iff] at hstep
  obtain ⟨⟨message, code⟩, hactivity, hstep⟩ := hstep
  rw [hactivity] at hop
  split at hstep
  next op next hcode =>
    cases hcode
    cases hop
    simp only [Shared.perform, hr, Option.bind_some] at hstep
    cases hstep
    rfl
  next => cases hstep

end Lumina.Knowledge
