import Lumina.Knowledge.System

/-!
# The attempts of a document task

The number of attempts that a document task has used up is in its message.  A retry sends the message
again with one attempt more, and a task without a slot sends it as if it were new.  Here the tasks of
one tenant work side by side, each with any outcome of its service call, and with any answer to its
request for a slot; what is told is what becomes of one message.
-/

namespace Lumina.Knowledge

open Interleaving Transition

/-! ### Tasks and their service calls -/

/-- What is noted of the tasks of one message. -/
inductive Event where
  /-- No slot is free. -/
  | refused
  /-- The service call has failed, other than by a missing document. -/
  | failed
  /-- The service call has not failed. -/
  | returned
  /-- `mark_retries_exhausted` is called. -/
  | recorded
  /-- No slot could be asked for, or the broker has not taken the message of a deferral. -/
  | lost
deriving DecidableEq, Repr

/-- A service call fails by every exception but that for a missing document. -/
def Failing : Except Exn DocumentStatus → Bool
  | .ok _ => false
  | .error e => !e.isNotFound

/-- The task of a message whose service call has some outcome. -/
def Message.codeWith (cfg : Settings) (message : Message) (outcome : Except Exn DocumentStatus) :
    Option (Prog TaskResult) :=
  match message.task with
  | .ingestDocument document =>
      some (documentTask cfg .etl message (.ofExcept outcome)
        (IngestionService.markRetriesExhausted document))
  | .embedDocument document =>
      some (documentTask cfg .embedding message (.ofExcept outcome)
        (EmbeddingService.markRetriesExhausted document))
  | .reindexKb _ => none

/-- The first operation of `mark_retries_exhausted` for a task. -/
def Task.marks : Task → Op → Bool
  | .ingestDocument _, .tx (.lastRunningStage _) => true
  | .embedDocument _, .tx (.setStatus _) => true
  | _, _ => false

/-- A message in the hands of a worker. -/
structure Delivery where
  message : Message
  outcome : Except Exn DocumentStatus
  code : Prog TaskResult

/-- What an operation of a task tells. -/
def Message.event (message : Message) (outcome : Except Exn DocumentStatus) (op : Op)
    (answer : Answer) : Option Event :=
  match op, answer with
  | .acquire _, .done => some (if Failing outcome then .failed else .returned)
  | .acquire _, .denied => some .refused
  | .acquire _, _ => some .lost
  | .enqueue _ _ _, .denied => some .lost
  | op, _ => if message.task.marks op then some .recorded else none

/-- The tasks, and the events of those for one message. -/
structure Tasks where
  shared : Shared := {}
  running : List Delivery := []
  log : List Event := []

namespace Tasks

inductive Action where
  /-- A queued message is taken by a worker; its service call will have the outcome. -/
  | deliver (i : ℕ) (outcome : Except Exn DocumentStatus)
  /-- The next operation of a task. -/
  | work (i : ℕ) (answer : Answer)
  | finish (i : ℕ)
  /-- A message for another document, or for another task. -/
  | send (task : Task) (sentFor : ℕ)

def step (cfg : Settings) (task : Task) : Action → Tasks → Option Tasks
  | .deliver i outcome, s => do
      let message ← s.shared.queue[i]?
      let code ← message.codeWith cfg outcome
      some
        { s with
          shared := { s.shared with queue := s.shared.queue.eraseIdx i }
          running := s.running ++ [⟨message, outcome, code⟩] }
  | .work i answer, s => do
      let δ ← s.running[i]?
      match δ.code with
      | .call op next => do
          let (reply, shared) ← s.shared.perform cfg (some δ.message) op answer
          some
            { shared := shared
              running := s.running.set i { δ with code := next reply }
              log :=
                if δ.message.task = task then s.log ++ (δ.message.event δ.outcome op answer).toList
                else s.log }
      | _ => none
  | .finish i, s => do
      let δ ← s.running[i]?
      if δ.code.outcome.isSome then some { s with running := s.running.eraseIdx i } else none
  | .send other sentFor, s =>
      if other = task then none else some { s with shared := s.shared.send other 0 sentFor }

/-- The service calls that have failed. -/
def failures (s : Tasks) : ℕ :=
  s.log.count .failed

end Tasks

/-- The tasks of a tenant, with one message for the task that is told of. -/
def documentTasks (cfg : Settings) (task : Task) : Machine Tasks Tasks.Action where
  init s :=
    s.log = [] ∧ s.running = [] ∧
      ∃ message, s.shared.queue.filter (·.task = task) = [message] ∧ message.retries = 0
  step := Tasks.step cfg task

/-! ### What is left of a task -/

/-- Where a message is. -/
inductive Phase where
  | queued
  | waiting
  | deferring
  | retrying
  | recording
  | leaving
deriving DecidableEq, Repr

/-- The phase of a task by its next operation. -/
def Task.phase (task : Task) : Prog TaskResult → Phase
  | .call (.acquire _) _ => .waiting
  | .call (.enqueue _ _ _) _ => .deferring
  | .call .retry _ => .retrying
  | .call op _ => if task.marks op then .recording else .leaving
  | _ => .leaving

/-- An operation on the way out of a task. -/
def Task.quiet (task : Task) : Op → Prop
  | .release _ => True
  | .tx t => task.marks (.tx t) = false
  | _ => False

/-- What is left of the task of a message. -/
inductive Residual (cfg : Settings) (message : Message) (outcome : Except Exn DocumentStatus) :
    Prog TaskResult → Prop where
  | waiting {code : Prog TaskResult} (h : message.codeWith cfg outcome = some code) :
      Residual cfg message outcome code
  | deferring {next : Except Exn Bool → Prog TaskResult}
      (quiet : ∀ r, (next r).Uses message.task.quiet) :
      Residual cfg message outcome
        (.call (.enqueue message.task message.sentFor cfg.etlFairnessRequeueSeconds) next)
  | retrying {next : Except Exn Unit → Prog TaskResult}
      (quiet : ∀ r, (next r).Uses message.task.quiet) :
      Residual cfg message outcome (.call .retry next)
  | recording {t : Tx} {next : Except Exn t.Reply → Prog TaskResult}
      (marks : message.task.marks (.tx t) = true)
      (quiet : ∀ r, (next r).Uses message.task.quiet) :
      Residual cfg message outcome (.call (.tx t) next)
  | leaving {code : Prog TaskResult} (quiet : code.Uses message.task.quiet) :
      Residual cfg message outcome code

/-- What one operation does to a message: where it is before and after, the event, and the attempts
in the message that is sent again. -/
inductive Move (message : Message) (outcome : Except Exn DocumentStatus) :
    Phase → Option Event → Phase → Option ℕ → Prop where
  | lost : Move message outcome .waiting (some .lost) .leaving none
  | refused : Move message outcome .waiting (some .refused) .deferring none
  | returned (h : Failing outcome = false) :
      Move message outcome .waiting (some .returned) .leaving none
  | failed (h : Failing outcome = true) (short : message.retries < maxRetries) :
      Move message outcome .waiting (some .failed) .retrying none
  | exhausted (h : Failing outcome = true) (long : maxRetries ≤ message.retries) :
      Move message outcome .waiting (some .failed) .recording none
  | deferred : Move message outcome .deferring none .leaving (some 0)
  | unsent : Move message outcome .deferring (some .lost) .leaving none
  | retried : Move message outcome .retrying none .leaving (some (message.retries + 1))
  | recorded : Move message outcome .recording (some .recorded) .leaving none
  | left : Move message outcome .leaving none .leaving none

section

variable {cfg : Settings} {message : Message} {outcome : Except Exn DocumentStatus}

theorem phase_of_uses {task : Task} {code : Prog TaskResult} (h : code.Uses task.quiet) :
  task.phase code = .leaving
  := by
  cases code with
  | pure a => rfl
  | raise e => rfl
  | call op next =>
    obtain ⟨quiet, -⟩ := h
    cases op with
    | release kind =>
      cases task
      all_goals rfl
    | tx t => exact if_neg (Bool.eq_false_iff.mp quiet)
    | _ => cases quiet

theorem enqueue_of_deferring {task : Task} {op : Op} {next : Except Exn op.Reply → Prog TaskResult}
    (h : task.phase (.call op next) = .deferring) :
  ∃ other sentFor delay, op = .enqueue other sentFor delay
  := by
  unfold Task.phase at h
  split at h
  · cases h
  · rename_i same
    cases same
    exact ⟨_, _, _, rfl⟩
  · cases h
  · split at h
    all_goals cases h
  · cases h

/-- What follows the service call: nothing, a retry, or the record. -/
inductive Follows (message : Message) (outcome : Except Exn DocumentStatus) :
    Prog TaskResult → Prop where
  | returned (h : Failing outcome = false) {code : Prog TaskResult}
      (quiet : code.Uses message.task.quiet) : Follows message outcome code
  | failed (h : Failing outcome = true) (short : message.retries < maxRetries)
      {next : Except Exn Unit → Prog TaskResult} (quiet : ∀ r, (next r).Uses message.task.quiet) :
      Follows message outcome (.call .retry next)
  | exhausted (h : Failing outcome = true) (long : maxRetries ≤ message.retries) {t : Tx}
      {next : Except Exn t.Reply → Prog TaskResult} (marks : message.task.marks (.tx t) = true)
      (quiet : ∀ r, (next r).Uses message.task.quiet) : Follows message outcome (.call (.tx t) next)

/-- Marking the attempts as used up begins with its first operation, and goes on quietly. -/
def Records (task : Task) (p : Prog Unit) : Prop :=
  ∃ t next, p = .call (.tx t) next ∧ task.marks (.tx t) = true ∧ ∀ r, (next r).Uses task.quiet

theorem follows_runService {exhausted : Exn → ℕ → Prog Unit} {kind : SlotKind}
    (records : ∀ e n, Records message.task (exhausted e n)) :
  Follows message outcome
    ((runService (.ofExcept outcome) exhausted message.retries).ensure (perform (.release kind)))
  := by
  have released : (perform (.release kind)).Uses message.task.quiet :=
    Program.uses_perform trivial
  cases outcome with
  | ok status =>
    refine .returned rfl ?_
    exact Program.Uses.ensure (Program.uses_pure _) released
  | error e =>
    unfold runService
    change Follows _ _ (Program.ensure (if e.isNotFound then _ else if _ then _ else _) _)
    by_cases missing : e.isNotFound = true
    · rw [if_pos missing]
      refine .returned (by rw [Failing, missing]; rfl) ?_
      exact Program.Uses.ensure (Program.uses_pure _) released
    · have failing : Failing (.error e) = true := by
        rw [Failing, Bool.eq_false_iff.mpr missing]
        rfl
      rw [if_neg missing]
      by_cases long : maxRetries < message.retries + 1
      · rw [if_pos long]
        obtain ⟨t, next, first, marks, quiet⟩ := records e (message.retries + 1)
        rw [first]
        refine .exhausted failing (Nat.lt_succ_iff.mp long) marks fun r => ?_
        refine Program.Uses.ensure ?_ released
        exact (quiet r).bind fun _ => Program.uses_raise _
      · rw [if_neg long]
        refine .failed failing (by omega) fun r => ?_
        cases r with
        | ok u => exact Program.Uses.ensure (Program.uses_raise _) released
        | error e => exact Program.Uses.ensure (Program.uses_raise _) released

/-- A task asks for a slot; without one it sends its message again, and with one it goes on after its
service call. -/
structure AsksForSlot (cfg : Settings) (message : Message) (outcome : Except Exn DocumentStatus)
    (kind : SlotKind) (next : Except Exn Bool → Prog TaskResult) : Prop where
  failed : ∀ e, next (.error e) = .raise e
  refused : ∃ rest, next (.ok false) =
      .call (.enqueue message.task message.sentFor cfg.etlFairnessRequeueSeconds) rest ∧
    ∀ r, (rest r).Uses message.task.quiet
  granted : Follows message outcome (next (.ok true))

theorem asksForSlot_documentTask {exhausted : Exn → ℕ → Prog Unit} {kind : SlotKind}
    (records : ∀ e n, Records message.task (exhausted e n)) :
  ∃ next, documentTask cfg kind message (.ofExcept outcome) exhausted = .call (.acquire kind) next ∧
    AsksForSlot cfg message outcome kind next
  := by
  refine ⟨_, rfl, fun e => rfl, ⟨_, rfl, fun r => ?_⟩, follows_runService records⟩
  cases r with
  | ok accepted => trivial
  | error e => trivial

theorem asksForSlot_of_codeWith {code : Prog TaskResult} (h : message.codeWith cfg outcome = some code) :
  ∃ kind next, code = .call (.acquire kind) next ∧ AsksForSlot cfg message outcome kind next
  := by
  unfold Message.codeWith at h
  split at h
  · rename_i document task
    cases h
    refine ⟨_, asksForSlot_documentTask fun e n => ⟨_, _, rfl, by rw [task]; rfl, fun r => ?_⟩⟩
    rw [task]
    cases r with
    | error e => trivial
    | ok stage =>
      refine ⟨rfl, fun r => ?_⟩
      cases r with
      | ok n => trivial
      | error e => trivial
  · rename_i document task
    cases h
    refine ⟨_, asksForSlot_documentTask fun e n => ⟨_, _, rfl, by rw [task]; rfl, fun r => ?_⟩⟩
    cases r with
    | ok n => trivial
    | error e => trivial
  · cases h

/-- The message that is sent again with a number of attempts. -/
def Message.again (message : Message) (charge retries : ℕ) : Message :=
  { message with retries := retries, charge := charge }

/-- A transaction sends nothing. -/
theorem perform_tx_queue {t : Tx} {answer : Answer} {reply : Except Exn t.Reply} {s s' : Shared}
    (h : s.perform cfg (some message) (.tx t) answer = some (reply, s')) :
  s'.queue = s.queue
  := by
  cases answer with
  | done =>
    simp only [Shared.perform] at h
    split at h
    all_goals
      cases h
      rfl
  | raised e =>
    obtain ⟨-, h⟩ := Option.ite_none_right_eq_some.mp h
    cases h
    rfl
  | denied => cases h
  | reported model => cases h

theorem event_tx {t : Tx} {answer : Answer} :
  message.event outcome (.tx t) answer = if message.task.marks (.tx t) then some .recorded else none
  := by
  cases answer
  all_goals rfl

theorem event_enqueue {task : Task} {sentFor delay : ℕ} :
  message.event outcome (.enqueue task sentFor delay) .done = none
  := by
  obtain ⟨task, retries, sentFor, charge⟩ := message
  cases task
  all_goals rfl

theorem event_retry :
  message.event outcome .retry .done = none
  := by
  obtain ⟨task, retries, sentFor, charge⟩ := message
  cases task
  all_goals rfl

/-- A slot is refused by the answer to the request for one. -/
theorem denied_of_refused {op : Op} {answer : Answer}
    (h : message.event outcome op answer = some .refused) :
  ∃ kind, op = .acquire kind ∧ answer = .denied
  := by
  unfold Message.event at h
  split at h
  · split at h
    all_goals cases h
  · exact ⟨_, rfl, rfl⟩
  · cases h
  · cases h
  · split at h
    all_goals cases h

theorem denied_of_lost {task : Task} {sentFor delay : ℕ} {answer : Answer}
    (h : message.event outcome (.enqueue task sentFor delay) answer = some .lost) :
  answer = .denied
  := by
  unfold Message.event at h
  split at h
  · cases ‹Op.enqueue _ _ _ = _›
  · cases ‹Op.enqueue _ _ _ = _›
  · cases ‹Op.enqueue _ _ _ = _›
  · rfl
  · split at h
    all_goals cases h

theorem event_release {kind : SlotKind} {answer : Answer} :
  message.event outcome (.release kind) answer = none
  := by
  obtain ⟨task, retries, sentFor, charge⟩ := message
  cases answer
  all_goals
    cases task
    all_goals rfl

/-- One operation of a task is a move of its message. -/
theorem exists_move {op : Op} {next : Except Exn op.Reply → Prog TaskResult} {answer : Answer}
    {reply : Except Exn op.Reply} {s s' : Shared}
    (residual : Residual cfg message outcome (.call op next))
    (h : s.perform cfg (some message) op answer = some (reply, s')) :
  ∃ again, Move message outcome (message.task.phase (.call op next))
      (message.event outcome op answer) (message.task.phase (next reply)) again ∧
    Residual cfg message outcome (next reply) ∧
    s'.queue = s.queue ++ (again.map (message.again s.nextCharge)).toList
  := by
  cases residual with
  | waiting begins =>
    obtain ⟨kind, rest, same, failed, ⟨resend, refused, quiet⟩, granted⟩ :=
      asksForSlot_of_codeWith begins
    cases same
    cases answer with
    | done =>
      cases h
      generalize rest (.ok true) = code at granted
      cases granted with
      | returned fine quiet =>
        refine ⟨none, ?_, .leaving quiet, (List.append_nil _).symm⟩
        rw [phase_of_uses quiet]
        change Move message outcome _ (some (if Failing outcome then _ else _)) _ _
        rw [fine]
        exact .returned fine
      | failed failing short quiet =>
        refine ⟨none, ?_, .retrying quiet, (List.append_nil _).symm⟩
        change Move message outcome _ (some (if Failing outcome then _ else _)) _ _
        rw [failing]
        exact .failed failing short
      | exhausted failing long marks quiet =>
        refine ⟨none, ?_, .recording marks quiet, (List.append_nil _).symm⟩
        change Move message outcome _ (some (if Failing outcome then _ else _))
          (if _ then _ else _) _
        rw [failing, if_pos marks]
        exact .exhausted failing long
    | denied =>
      cases h
      refine ⟨none, ?_, ?_, (List.append_nil _).symm⟩
      · rw [refused]
        exact .refused
      · rw [refused]
        exact .deferring quiet
    | reported model => cases h
    | raised e =>
      obtain ⟨-, h⟩ := Option.ite_none_right_eq_some.mp h
      cases h
      refine ⟨none, ?_, ?_, (List.append_nil _).symm⟩
      · rw [failed]
        exact .lost
      · rw [failed]
        exact .leaving (Program.uses_raise e)
  | deferring quiet =>
    cases answer with
    | done =>
      simp only [Shared.perform, if_true] at h
      cases h
      refine ⟨some 0, ?_, .leaving (quiet _), rfl⟩
      rw [phase_of_uses (quiet _), event_enqueue]
      exact .deferred
    | denied =>
      cases h
      refine ⟨none, ?_, .leaving (quiet _), (List.append_nil _).symm⟩
      rw [phase_of_uses (quiet _)]
      exact .unsent
    | reported model => cases h
    | raised e => cases h
  | retrying quiet =>
    cases answer with
    | done =>
      cases h
      refine ⟨some (message.retries + 1), ?_, .leaving (quiet _), rfl⟩
      rw [phase_of_uses (quiet _), event_retry]
      exact .retried
    | denied => cases h
    | reported model => cases h
    | raised e => cases h
  | recording marks quiet =>
    refine ⟨none, ?_, .leaving (quiet _), by rw [perform_tx_queue h]; exact (List.append_nil _).symm⟩
    rw [phase_of_uses (quiet _), event_tx, if_pos marks]
    change Move message outcome (if _ then _ else _) _ _ _
    rw [if_pos marks]
    exact .recorded
  | leaving quiet =>
    have phase := phase_of_uses quiet
    obtain ⟨calm, rest⟩ := quiet
    have silent : message.event outcome op answer = none ∧ s'.queue = s.queue := by
      cases op with
      | tx t => exact ⟨by rw [event_tx, if_neg (Bool.eq_false_iff.mp calm)], perform_tx_queue h⟩
      | release kind =>
        refine ⟨event_release, ?_⟩
        cases answer with
        | done =>
          cases h
          rfl
        | raised e =>
          obtain ⟨-, h⟩ := Option.ite_none_right_eq_some.mp h
          cases h
          rfl
        | denied => cases h
        | reported model => cases h
      | _ => cases calm
    refine ⟨none, ?_, .leaving (rest _), by rw [silent.2]; exact (List.append_nil _).symm⟩
    rw [phase, phase_of_uses (rest _), silent.1]
    exact .left

end

/-! ### Where the message is -/

/-- A message that is queued, with its attempts. -/
def Message.tokens (task : Task) (m : Message) : List (Phase × ℕ) :=
  if m.task = task then [(.queued, m.retries)] else []

/-- A message that is worked on and not on the way out, with its attempts. -/
def Delivery.tokens (task : Task) (δ : Delivery) : List (Phase × ℕ) :=
  if δ.message.task = task ∧ task.phase δ.code ≠ .leaving then
    [(task.phase δ.code, δ.message.retries)]
  else []

namespace Tasks

/-- The messages for a task, queued or worked on. -/
def tokens (task : Task) (s : Tasks) : List (Phase × ℕ) :=
  s.shared.queue.flatMap (Message.tokens task) ++ s.running.flatMap (Delivery.tokens task)

/-- The attempts in a message are those that have failed, `n` in number. -/
def Right (n : ℕ) : Phase × ℕ → Prop
  | (.queued, k) => k = n ∧ n ≤ maxRetries
  | (.waiting, k) => k = n ∧ n ≤ maxRetries
  | (.deferring, k) => k = 0 ∧ n = 0
  | (.retrying, k) => k + 1 = n ∧ n ≤ maxRetries
  | (.recording, _) => n = maxRetries + 1
  | (.leaving, _) => False

/-- The message has come to its end, and the last event tells how. -/
def Ended (s : Tasks) : Prop :=
  (s.log.getLast? = some .returned ∨ s.log.getLast? = some .lost) ∧ s.failures ≤ maxRetries ∨
    s.log.getLast? = some .recorded ∧ s.failures = maxRetries + 1

/-- There is one message with the right number of attempts, or it has come to its end. -/
def Standing (task : Task) (s : Tasks) : Prop :=
  (∃ t, (s.tokens task).Perm [t] ∧ Right s.failures t) ∨ (s.tokens task).Perm [] ∧ s.Ended

/-- No slot is refused to a message with failed attempts, and the broker takes the message of every
deferral. -/
def Steady (task : Task) (s : Tasks) : Action → Prop
  | .work i answer =>
      ∀ δ ∈ s.running[i]?, δ.message.task = task →
        (task.phase δ.code = .waiting → answer = .denied → δ.message.retries = 0) ∧
          (task.phase δ.code = .deferring → answer ≠ .denied)
  | _ => True

instance (task : Task) (s : Tasks) (a : Action) : Decidable (Steady task s a) :=
  match a with
  | .work i _ => Option.decidableForallMem s.running[i]?
  | .deliver _ _ => isTrue trivial
  | .finish _ => isTrue trivial
  | .send _ _ => isTrue trivial

section

variable {cfg : Settings} {task : Task} {s s' : Tasks}

theorem perm_flatMap_eraseIdx {α β : Type} {l : List α} {i : ℕ} {x : α} (h : l[i]? = some x)
    (f : α → List β) :
  (l.flatMap f).Perm (f x ++ (l.eraseIdx i).flatMap f)
  := by
  obtain ⟨hi, rfl⟩ := List.getElem?_eq_some_iff.mp h
  exact (List.getElem_cons_eraseIdx_perm hi).symm.flatMap_right f

theorem perm_flatMap_set {α β : Type} {l : List α} {i : ℕ} {x : α} (h : l[i]? = some x) (y : α)
    (f : α → List β) :
  ((l.set i y).flatMap f).Perm (f y ++ (l.eraseIdx i).flatMap f)
  := by
  obtain ⟨hi, -⟩ := List.getElem?_eq_some_iff.mp h
  exact (List.set_perm_cons_eraseIdx hi y).flatMap_right f

/-- A step by which nothing is moved and nothing told. -/
theorem Standing.of_perm (h : Standing task s) (same : (s'.tokens task).Perm (s.tokens task))
    (log : s'.log = s.log) :
  Standing task s'
  := by
  unfold Standing Ended failures at *
  rw [log]
  exact h.imp (fun ⟨t, perm, right⟩ => ⟨t, same.trans perm, right⟩)
    fun ⟨perm, ended⟩ => ⟨same.trans perm, ended⟩

/-- A step that moves the message. -/
theorem Standing.of_move {x : Phase × ℕ} {rest y : List (Phase × ℕ)} (h : Standing task s)
    (before : (s.tokens task).Perm (x :: rest)) (after : (s'.tokens task).Perm (y ++ rest))
    (moves : Right s.failures x → (∃ t, y = [t] ∧ Right s'.failures t) ∨ y = [] ∧ s'.Ended) :
  Standing task s'
  := by
  rcases h with ⟨t, perm, right⟩ | ⟨perm, -⟩
  · obtain ⟨rfl, rfl⟩ := List.cons.inj (List.perm_singleton.mp (before.symm.trans perm))
    rw [List.append_nil] at after
    rcases moves right with ⟨t, rfl, right⟩ | ⟨rfl, ended⟩
    · exact .inl ⟨t, after, right⟩
    · exact .inr ⟨after, ended⟩
  · cases List.perm_nil.mp (before.symm.trans perm)

/-- What is left of every task is a residue of its code. -/
def Coded (cfg : Settings) (s : Tasks) : Prop :=
  ∀ δ ∈ s.running, Residual cfg δ.message δ.outcome δ.code

theorem failures_append (e : Option Event) :
  (s.log ++ e.toList).count .failed = s.failures + if e = some .failed then 1 else 0
  := by
  rw [List.count_append, failures]
  cases e with
  | none => rfl
  | some e => cases e <;> rfl

/-- A message is taken by a worker. -/
theorem Standing.deliver (h : Standing task s) {i : ℕ} {outcome : Except Exn DocumentStatus}
    {message : Message} {code : Prog TaskResult} (queued : s.shared.queue[i]? = some message)
    (begins : message.codeWith cfg outcome = some code) :
  Standing task
    { s with
      shared := { s.shared with queue := s.shared.queue.eraseIdx i }
      running := s.running ++ [⟨message, outcome, code⟩] }
  := by
  have before := (perm_flatMap_eraseIdx queued (Message.tokens task)).append_right
    (s.running.flatMap (Delivery.tokens task))
  obtain ⟨kind, next, rfl, -⟩ := asksForSlot_of_codeWith begins
  by_cases same : message.task = task
  · have old : message.tokens task = [(.queued, message.retries)] := if_pos same
    have new : Delivery.tokens task ⟨message, outcome, .call (.acquire kind) next⟩ =
        [(.waiting, message.retries)] := if_pos ⟨same, nofun⟩
    rw [old, List.append_assoc] at before
    refine h.of_move before ?_ fun right => .inl ⟨(.waiting, message.retries), rfl, right⟩
    unfold tokens
    rw [List.flatMap_append, List.flatMap_singleton, new, ← List.append_assoc]
    exact List.perm_append_comm
  · have old : message.tokens task = [] := if_neg same
    have new : Delivery.tokens task ⟨message, outcome, .call (.acquire kind) next⟩ = [] :=
      if_neg fun both => same both.1
    rw [old] at before
    refine h.of_perm ?_ rfl
    unfold tokens
    rw [List.flatMap_append, List.flatMap_singleton, new, List.append_nil]
    exact before.symm

/-- The tokens of a message that has been moved. -/
def tokensAt (p : Phase) (retries : ℕ) : List (Phase × ℕ) :=
  if p ≠ .leaving then [(p, retries)] else []

theorem Delivery.tokens_of_eq {δ : Delivery} (h : δ.message.task = task) :
  δ.tokens task = tokensAt (task.phase δ.code) δ.message.retries
  := by
  unfold Delivery.tokens tokensAt
  simp only [h, true_and]

/-- A move of the message by its own task. -/
theorem Standing.of_own {m : Message} {outcome : Except Exn DocumentStatus} {p p' : Phase}
    {e : Option Event} {again : Option ℕ} {rest : List (Phase × ℕ)} (h : Standing task s)
    (move : Move m outcome p e p' again)
    (before : (s.tokens task).Perm (tokensAt p m.retries ++ rest))
    (after : (s'.tokens task).Perm
      ((tokensAt p' m.retries ++ again.toList.map fun k => (.queued, k)) ++ rest))
    (log : s'.log = s.log ++ e.toList)
    (refusal : e = some .refused → m.retries = 0) (sent : p = .deferring → e ≠ some .lost) :
  Standing task s'
  := by
  have count : s'.failures = s.failures + if e = some .failed then 1 else 0 := by
    rw [failures, log, failures_append]
  have last {x : Event} (hx : e = some x) : s'.log.getLast? = some x := by
    rw [log, hx]
    exact List.getLast?_concat
  cases move with
  | lost =>
    refine h.of_move before after fun right => .inr ⟨rfl, .inl ⟨.inr (last rfl), ?_⟩⟩
    rw [count]
    exact right.2
  | refused =>
    refine h.of_move before after fun right => .inl ⟨(.deferring, m.retries), rfl, refusal rfl, ?_⟩
    rw [count]
    exact right.1.symm.trans (refusal rfl)
  | returned =>
    refine h.of_move before after fun right => .inr ⟨rfl, .inl ⟨.inl (last rfl), ?_⟩⟩
    rw [count]
    exact right.2
  | failed _ short =>
    refine h.of_move before after fun right => .inl ⟨(.retrying, m.retries), rfl, ?_⟩
    obtain ⟨same, -⟩ := right
    rw [count, ← same]
    exact ⟨rfl, short⟩
  | exhausted _ long =>
    refine h.of_move before after fun right => .inl ⟨(.recording, m.retries), rfl, ?_⟩
    obtain ⟨same, le⟩ := right
    change s'.failures = maxRetries + 1
    rw [count, Nat.le_antisymm le (same ▸ long)]
    rfl
  | deferred =>
    refine h.of_move before after fun right => .inl ⟨(.queued, 0), rfl, ?_⟩
    rw [count, right.2]
    exact ⟨rfl, Nat.zero_le _⟩
  | unsent => exact absurd rfl (sent rfl)
  | retried =>
    refine h.of_move before after fun right => .inl ⟨(.queued, m.retries + 1), rfl, ?_⟩
    rw [count]
    exact right
  | recorded =>
    refine h.of_move before after fun right => .inr ⟨rfl, .inr ⟨last rfl, ?_⟩⟩
    rw [count]
    exact right
  | left =>
    refine h.of_perm (after.trans before.symm) ?_
    rw [log]
    exact List.append_nil _

/-- The next operation of a task. -/
theorem Standing.work (h : Standing task s) (coded : Coded cfg s) {i : ℕ} {answer : Answer}
    (steady : Steady task s (.work i answer)) (hstep : step cfg task (.work i answer) s = some s') :
  Standing task s' ∧ Coded cfg s'
  := by
  simp only [step, Option.bind_eq_bind, Option.bind_eq_some_iff] at hstep
  obtain ⟨δ, hδ, hstep⟩ := hstep
  split at hstep
  next op next code =>
    simp only [Option.bind_eq_some_iff] at hstep
    obtain ⟨⟨reply, shared⟩, performed, same⟩ := hstep
    cases same
    have residual := coded δ (List.mem_of_getElem? hδ)
    rw [code] at residual
    obtain ⟨again, move, residue, queue⟩ := exists_move residual performed
    constructor
    · have old := perm_flatMap_eraseIdx hδ (Delivery.tokens task)
      have new := perm_flatMap_set hδ { δ with code := next reply } (Delivery.tokens task)
      have before := (old.append_left (s.shared.queue.flatMap (Message.tokens task))).trans
        (List.perm_append_comm_assoc _ _ _)
      by_cases own : δ.message.task = task
      · obtain ⟨refusal, sent⟩ := steady δ hδ own
        rw [code] at refusal sent
        have resent : (again.map (δ.message.again s.shared.nextCharge)).toList.flatMap
            (Message.tokens task) = again.toList.map fun k => (.queued, k) := by
          cases again with
          | none => rfl
          | some k => exact congrArg (· ++ []) (if_pos own)
        rw [Delivery.tokens_of_eq own, code] at before
        have moved : Delivery.tokens task { δ with code := next reply } =
            tokensAt (task.phase (next reply)) δ.message.retries := Delivery.tokens_of_eq own
        rw [moved] at new
        rw [own] at move
        apply h.of_own move before
        · rw [List.perm_iff_count]
          intro t
          have count := new.count_eq t
          simp only [tokens, queue, resent, List.flatMap_append, List.count_append] at count ⊢
          omega
        · exact if_pos own
        · intro told
          obtain ⟨kind, rfl, denied⟩ := denied_of_refused told
          exact refusal rfl denied
        · intro phase told
          obtain ⟨other, sentFor, delay, rfl⟩ := enqueue_of_deferring phase
          exact sent rfl (denied_of_lost told)
      · have still (code : Prog TaskResult) :
            Delivery.tokens task { δ with code := code } = [] := if_neg fun both => own both.1
        have resent : (again.map (δ.message.again s.shared.nextCharge)).toList.flatMap
            (Message.tokens task) = [] := by
          cases again with
          | none => rfl
          | some k => exact congrArg (· ++ []) (if_neg own)
        refine h.of_perm ?_ (if_neg own)
        rw [List.perm_iff_count]
        intro t
        have countOld := old.count_eq t
        have countNew := new.count_eq t
        rw [still] at countNew
        rw [show δ.tokens task = [] from still δ.code] at countOld
        simp only [tokens, queue, resent, List.flatMap_append, List.append_nil, List.nil_append,
          List.count_append] at countOld countNew ⊢
        omega
    · intro x hx
      rcases List.mem_or_eq_of_mem_set hx with hx | rfl
      · exact coded x hx
      · exact residue
  next => cases hstep

/-- One step keeps the message standing. -/
theorem Standing.step (h : Standing task s) (coded : Coded cfg s) {a : Action}
    (steady : Steady task s a) (hstep : Tasks.step cfg task a s = some s') :
  Standing task s' ∧ Coded cfg s'
  := by
  cases a with
  | deliver i outcome =>
    simp only [Tasks.step, Option.bind_eq_bind, Option.bind_eq_some_iff] at hstep
    obtain ⟨message, queued, code, begins, same⟩ := hstep
    cases same
    refine ⟨h.deliver queued begins, fun x hx => ?_⟩
    rcases List.mem_append.mp hx with hx | hx
    · exact coded x hx
    · rw [List.mem_singleton.mp hx]
      exact .waiting begins
  | work i answer => exact h.work coded steady hstep
  | finish i =>
    simp only [Tasks.step, Option.bind_eq_bind, Option.bind_eq_some_iff] at hstep
    obtain ⟨δ, hδ, same⟩ := hstep
    obtain ⟨ended, same⟩ := Option.ite_none_right_eq_some.mp same
    cases same
    refine ⟨h.of_perm ?_ rfl, fun x hx => coded x (List.mem_of_mem_eraseIdx hx)⟩
    have out : δ.tokens task = [] := by
      refine if_neg fun both => both.2 ?_
      obtain ⟨r, hr⟩ := Option.isSome_iff_exists.mp ended
      cases code : δ.code with
      | pure a => rfl
      | raise e => rfl
      | call op next =>
        rw [code] at hr
        cases hr
    have old := perm_flatMap_eraseIdx hδ (Delivery.tokens task)
    rw [out] at old
    exact (old.append_left _).symm
  | send other sentFor =>
    obtain ⟨different, same⟩ := Option.ite_none_left_eq_some.mp hstep
    cases same
    refine ⟨h.of_perm ?_ rfl, coded⟩
    have none (charge : ℕ) : Message.tokens task ⟨other, 0, sentFor, charge⟩ = [] :=
      if_neg different
    unfold tokens Shared.send
    rw [List.flatMap_append, List.flatMap_singleton, none, List.append_nil]

end

/-- The attempts of a message: four of its service calls fail at most, the last of these failures is
recorded, a queued message carries the number of failed attempts, and the message is in one place
until it has come to its end. -/
structure Budget (task : Task) (s : Tasks) : Prop where
  bounded : s.failures ≤ maxRetries + 1
  recorded : s.failures = maxRetries + 1 →
    s.log.getLast? = some .recorded ∨
      ∃ δ ∈ s.running, δ.message.task = task ∧ task.phase δ.code = .recording
  counted : ∀ message ∈ s.shared.queue, message.task = task → message.retries = s.failures
  kept : (s.tokens task).length = 1 ∨ s.Ended

variable {cfg : Settings} {task : Task} {s : Tasks}

theorem Standing.budget (h : Standing task s) :
  Budget task s
  := by
  have queued {message : Message} (hm : message ∈ s.shared.queue) (own : message.task = task) :
      (.queued, message.retries) ∈ s.tokens task := by
    refine List.mem_append_left _ (List.mem_flatMap.mpr ⟨message, hm, ?_⟩)
    rw [Message.tokens, if_pos own]
    exact List.mem_singleton.mpr rfl
  rcases h with ⟨⟨p, k⟩, perm, right⟩ | ⟨perm, ended⟩
  · refine ⟨?_, fun four => .inr ?_, fun message hm own => ?_, .inl perm.length_eq⟩
    · cases p with
      | queued | waiting | retrying => exact right.2.trans (Nat.le_succ _)
      | deferring => exact right.2.le.trans (Nat.zero_le _)
      | recording => exact (show s.failures = _ from right).le
      | leaving => exact right.elim
    · have recording : p = .recording := by
        cases p with
        | recording => rfl
        | leaving => exact right.elim
        | deferring => exact absurd (four.symm.trans right.2) (by decide)
        | queued | waiting | retrying => exact absurd (four ▸ right.2) (by decide)
      have mem := perm.symm.subset (List.mem_singleton.mpr rfl)
      rcases List.mem_append.mp mem with mem | mem
      · obtain ⟨message, -, mem⟩ := List.mem_flatMap.mp mem
        unfold Message.tokens at mem
        split_ifs at mem
        · rw [recording] at mem
          cases List.mem_singleton.mp mem
        · cases mem
      · obtain ⟨δ, hδ, mem⟩ := List.mem_flatMap.mp mem
        unfold Delivery.tokens at mem
        split_ifs at mem with both
        · have place := (Prod.mk.inj (List.mem_singleton.mp mem)).1
          exact ⟨δ, hδ, both.1, place.symm.trans recording⟩
        · cases mem
    · have place := List.mem_singleton.mp (perm.subset (queued hm own))
      cases place
      exact right.1
  · refine ⟨?_, fun four => .inl ?_, fun message hm own => ?_, .inr ended⟩
    · rcases ended with ⟨-, le⟩ | ⟨-, eq⟩
      · exact le.trans (Nat.le_succ _)
      · exact eq.le
    · rcases ended with ⟨-, le⟩ | ⟨last, -⟩
      · rw [four] at le
        exact absurd le (by decide)
      · exact last
    · cases perm.subset (queued hm own)

/-- As long as no slot is refused to a message with failed attempts, and every deferral is sent, the
attempts of a message are counted over all its deliveries. -/
theorem budget_kept {h : List (Tasks × Action)} (run : (documentTasks cfg task).Run h s)
    (steady : ∀ x ∈ h, Steady task x.1 x.2) :
  Budget task s
  := by
  have standing : Standing task s ∧ Coded cfg s := by
    apply run.invariant_of_guard (G := Steady task) _ _ steady
    · rintro s ⟨log, running, message, queue, fresh⟩
      refine ⟨.inl ⟨(.queued, message.retries), ?_, ?_⟩, ?_⟩
      · have queued : s.shared.queue.flatMap (Message.tokens task) =
            (s.shared.queue.filter (·.task = task)).map fun m => (.queued, m.retries) := by
          generalize s.shared.queue = queue
          induction queue with
          | nil => rfl
          | cons m queue ih =>
            rw [List.flatMap_cons, ih, Message.tokens, List.filter_cons]
            by_cases own : m.task = task
            · simp only [own, if_true, decide_true, List.map_cons, List.singleton_append]
            · simp only [own, if_false, decide_false, Bool.false_eq_true, List.nil_append]
        rw [tokens, queued, queue, running]
        exact .refl _
      · have none : s.failures = 0 := by
          rw [failures, log]
          rfl
        rw [none]
        exact ⟨fresh, Nat.zero_le _⟩
      · intro δ hδ
        rw [running] at hδ
        cases hδ
    · exact fun a s s' inv guard hstep => inv.1.step inv.2 guard hstep
  exact standing.1.budget

end Tasks

/-! ### Slots -/

namespace TenantSlotLimiter

/-- `acquire`: the counter of the tenant afterwards, and whether there is a slot. -/
def acquire (cap active : ℤ) : ℤ × Bool :=
  if cap < active + 1 then (active, false) else (active + 1, true)

/-- `release`: a counter that falls below zero is taken back. -/
def release (active : ℤ) : ℤ :=
  if active - 1 < 0 then active else active - 1

end TenantSlotLimiter

/-- The tasks, and the counters of the slots. -/
structure Tenant where
  tasks : Tasks
  active : SlotKind → ℤ := fun _ => 0

namespace Tenant

inductive Action where
  | task (a : Tasks.Action)
  /-- A counter is forgotten after its time. -/
  | expire (kind : SlotKind)

/-- The counters after an operation, if its answer is that of the limiter. -/
def count (cap : ℤ) (active : SlotKind → ℤ) : Op → Answer → Option (SlotKind → ℤ)
  | .acquire kind, .done =>
      let (n, granted) := TenantSlotLimiter.acquire cap (active kind)
      if granted then some (Function.update active kind n) else none
  | .acquire kind, .denied =>
      let (n, granted) := TenantSlotLimiter.acquire cap (active kind)
      if granted then none else some (Function.update active kind n)
  | .release kind, .done =>
      some (Function.update active kind (TenantSlotLimiter.release (active kind)))
  | _, _ => some active

/-- The counters after an action of the tasks. -/
def countAction (cap : ℤ) (s : Tenant) : Tasks.Action → Option (SlotKind → ℤ)
  | .work i answer =>
      match s.tasks.running[i]? with
      | some { code := .call op _, .. } => count cap s.active op answer
      | _ => some s.active
  | _ => some s.active

def step (cfg : Settings) (cap : ℤ) (task : Task) : Action → Tenant → Option Tenant
  | .task a, s => do
      let active ← countAction cap s a
      let tasks ← Tasks.step cfg task a s.tasks
      some { tasks := tasks, active := active }
  | .expire kind, s => some { s with active := Function.update s.active kind 0 }

end Tenant

/-- The tasks of a tenant, and the slots that they get. -/
def tenant (cfg : Settings) (cap : ℤ) (task : Task) : Machine Tenant Tenant.Action where
  init s := (documentTasks cfg task).init s.tasks ∧ s.active = fun _ => 0
  step := Tenant.step cfg cap task

/-- What the limiter answers is one of the answers that there may be. -/
theorem Tenant.exists_run {cfg : Settings} {cap : ℤ} {task : Task}
    {h : List (Tenant × Tenant.Action)} {s : Tenant} (run : (tenant cfg cap task).Run h s) :
  ∃ h', (documentTasks cfg task).Run h' s.tasks
  := by
  induction run with
  | init init => exact ⟨[], .init init.1⟩
  | @step h s t a _ hstep ih =>
    obtain ⟨h', run'⟩ := ih
    cases a with
    | task a =>
      simp only [tenant, Tenant.step, Option.bind_eq_bind, Option.bind_eq_some_iff] at hstep
      obtain ⟨active, -, tasks, hstep, same⟩ := hstep
      cases same
      exact ⟨_, run'.step hstep⟩
    | expire kind =>
      cases hstep
      exact ⟨h', run'⟩

/-! ### Small runs -/

/-- The messages of two documents. -/
def sampleTasks : Tasks where
  shared :=
    { queue :=
        [{ task := .ingestDocument 7, sentFor := 1, charge := 0 },
          { task := .ingestDocument 8, sentFor := 1, charge := 1 }]
      nextCharge := 2 }

theorem sampleTasks_init : (documentTasks sampleSettings (.ingestDocument 7)).init sampleTasks :=
  ⟨rfl, rfl, _, rfl, rfl⟩

/-- A message is delivered, and its service call fails. -/
def failsAt (i : ℕ) : List Tasks.Action :=
  [.deliver i (.error (.other "ConnectionError")), .work 0 .done]

/-- An attempt that fails, and its retry. -/
def retriesAt (i : ℕ) : List Tasks.Action :=
  failsAt i ++ [.work 0 .done, .work 0 .done, .finish 0]

/-- A message that has failed once finds the slot taken by another document. -/
def deferralRun : List Tasks.Action :=
  retriesAt 0 ++
    [.deliver 0 (.ok .chunked), .work 0 .done, .deliver 0 (.ok .chunked), .work 1 .denied,
      .work 1 .done, .finish 1, .work 0 .done, .finish 0] ++
    retriesAt 0 ++ retriesAt 0 ++ retriesAt 0 ++ failsAt 0

/-- With one slot for a tenant the service call for a document fails five times. -/
theorem budget_restored :
  ∃ h s, (tenant sampleSettings 1 (.ingestDocument 7)).Run h s ∧
    (∃ h', (documentTasks sampleSettings (.ingestDocument 7)).Run h' s.tasks) ∧
    s.tasks.failures = maxRetries + 2
  := by
  obtain ⟨h, s, run, failures⟩ := Machine.exists_run_of_exec
    (M := tenant sampleSettings 1 (.ingestDocument 7)) (deferralRun.map .task)
    (fun s => s.tasks.failures = maxRetries + 2) (s := { tasks := sampleTasks })
    ⟨sampleTasks_init, rfl⟩ (by decide +kernel)
  exact ⟨h, s, run, Tenant.exists_run run, of_decide_eq_true failures⟩

/-- Four failures, the last of which is recorded. -/
theorem budget_kept_exhausted :
  ∃ h s, (documentTasks sampleSettings (.ingestDocument 7)).Run h s ∧
    Tasks.Budget (.ingestDocument 7) s ∧ s.failures = maxRetries + 1 ∧
    s.log.getLast? = some .recorded
  := by
  obtain ⟨h, s, run, steady, ends⟩ := Machine.exists_run_of_execWhile
    (M := documentTasks sampleSettings (.ingestDocument 7))
    (retriesAt 0 ++ retriesAt 1 ++ retriesAt 1 ++ failsAt 1 ++ [.work 0 .done])
    (fun s a => Tasks.Steady (.ingestDocument 7) s a)
    (fun s => s.failures = maxRetries + 1 ∧ s.log.getLast? = some .recorded)
    sampleTasks_init (by decide +kernel)
  obtain ⟨failures, last⟩ := of_decide_eq_true ends
  have budget := Tasks.budget_kept run fun x hx => of_decide_eq_true (steady x hx)
  exact ⟨h, s, run, budget, failures, last⟩

end Lumina.Knowledge
