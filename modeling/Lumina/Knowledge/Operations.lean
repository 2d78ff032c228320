import Lumina.Knowledge.Transactions
import Lumina.Library.Program
import Mathlib.Logic.Function.Basic

/-!
# The operations of the services, and what they act on

Beside its transactions a service reads and writes the object storage, calls the provider of
embeddings, remembers the names of models, asks for a slot and sends messages.  `Shared` is all
that these operations act on.  How an operation turns out is the choice of an `Answer`: done,
denied, answered by the provider under some model name, or raised.
-/

namespace Lumina.Knowledge

open Interleaving

/-- The tasks of the workers, with their argument. -/
inductive Task where
  | ingestDocument (document : DocumentId)
  | embedDocument (document : DocumentId)
  | reindexKb (job : JobId)
deriving DecidableEq, Repr

/-- The document that a task is about. -/
def Task.document? : Task → Option DocumentId
  | .ingestDocument document => some document
  | .embedDocument document => some document
  | .reindexKb _ => none

/-- A message of the broker.  `sentFor` and `charge` are ghosts, which no task reads: the version
of the document that the sender had in hand, and a name for the message, fresh for every message
and every copy of one. -/
structure Message where
  task : Task
  retries : ℕ := 0
  sentFor : ℕ
  charge : ℕ
deriving DecidableEq, Repr

/-- The two kinds of slots. -/
inductive SlotKind where
  | etl
  | embedding
deriving DecidableEq, Repr

/-- The operations of a service. -/
inductive Op where
  | tx (t : Tx)
  | clock
  | getObject (key : ObjectKey)
  | putObject (key : ObjectKey) (content : String)
  | deleteObject (key : ObjectKey)
  | extractIsolated (content mediaType : String)
  | embed (texts : List String) (model : String)
  | resolvedModel (requested : String)
  | rememberResolution (requested reported : String)
  | acquire (kind : SlotKind)
  | release (kind : SlotKind)
  | enqueue (task : Task) (sentFor : ℕ) (delaySeconds : ℕ)
  | retry
  /-- Never answered: where the model stops following a loop. -/
  | unfinished
deriving DecidableEq, Repr

/-- What an operation returns; `embed` returns the name that the provider reported. -/
abbrev Op.Reply : Op → Type
  | .tx t => t.Reply
  | .clock => ℕ
  | .getObject _ => String
  | .putObject _ _ => Unit
  | .deleteObject _ => Unit
  | .extractIsolated _ _ => ExtractedDoc
  | .embed _ _ => String
  | .resolvedModel _ => String
  | .rememberResolution _ _ => Unit
  | .acquire _ => Bool
  | .release _ => Unit
  | .enqueue _ _ _ => Bool
  | .retry => Unit
  | .unfinished => Unit

/-- The programs of the services. -/
abbrev Prog := Program Op.Reply Exn

/-- An operation, as a program. -/
def perform (op : Op) : Prog op.Reply := Program.perform op

/-- A transaction, as a program. -/
def tx (t : Tx) : Prog t.Reply := perform (.tx t)

/-- How an operation turns out. -/
inductive Answer where
  | done
  /-- No slot is free, or the broker does not take the message. -/
  | denied
  /-- The provider answers under this model name. -/
  | reported (model : String)
  | raised (e : Exn)
deriving DecidableEq, Repr

/-- An exception of the infrastructure. -/
def Exn.isInfrastructure : Exn → Bool
  | .os _ => true
  | .other _ => true
  | _ => false

/-- What may be raised by an operation without regard to the state.  Sending a message catches
every exception, and `Retry` is taken to be sent. -/
def Op.mayRaise : Op → Exn → Bool
  | .clock, _ => false
  | .enqueue _ _ _, _ => false
  | .retry, _ => false
  | .unfinished, _ => false
  | .extractIsolated _ _, .domain e => e.cls = .extractionFailed
  | .embed _ _, e => e.isInfrastructure || e.provider?.isSome
  | _, e => e.isInfrastructure

/-- Everything that the services share.  `writers` is a ghost: the charge of the message whose
task has written the status of a document last. -/
structure Shared where
  db : Db := {}
  objects : List (ObjectKey × String) := []
  aliases : List (String × String) := []
  now : ℕ := 0
  queue : List Message := []
  nextCharge : ℕ := 0
  writers : DocumentId → Option ℕ := fun _ => none

namespace Shared

/-- The object under a key; the latest one put there. -/
def object (s : Shared) (key : ObjectKey) : Option String :=
  s.objects.lookup key

/-- The status writer of every document after a transaction. -/
def writersAfter (me : Option Message) (t : Tx) (s : Shared) : DocumentId → Option ℕ :=
  match t with
  | .setStatus u =>
      if s.db.documents.any u.hits then
        Function.update s.writers u.document (me.map (·.charge))
      else s.writers
  | .reingest document _ => Function.update s.writers document none
  | _ => s.writers

/-- A message in the queue. -/
def send (task : Task) (retries sentFor : ℕ) (s : Shared) : Shared :=
  { s with
    queue := s.queue ++
      [{ task := task, retries := retries, sentFor := sentFor, charge := s.nextCharge }]
    nextCharge := s.nextCharge + 1 }

/-- What the task of one message has written last counts as written by another message. -/
def handOver (old new : ℕ) (s : Shared) : Shared :=
  { s with writers := fun d => if s.writers d = some old then some new else s.writers d }

/-- A message that takes the place of the one being worked on takes over what it has written. -/
def replace (me : Message) (retries : ℕ) (s : Shared) : Shared :=
  (s.send me.task retries me.sentFor).handOver me.charge s.nextCharge

/-- What an operation that is done does to the shared state, and its reply. -/
def perform (cfg : Settings) (me : Option Message) :
    (op : Op) → Answer → Shared → Option (Except Exn op.Reply × Shared)
  | .tx t, .done, s =>
      match transact cfg s.now t s.db with
      | .ok (r, db) => some (.ok r, { s with db := db, writers := s.writersAfter me t })
      | .error e => some (.error e, s)
  | .clock, .done, s => some (.ok s.now, s)
  | .getObject key, .done, s =>
      match s.object key with
      | some content => some (.ok content, s)
      | none =>
          some (.error (.domain { cls := .objectNotFound, message := "物件不存在" }), s)
  | .putObject key content, .done, s =>
      some (.ok (), { s with objects := (key, content) :: s.objects })
  | .deleteObject key, .done, s =>
      some (.ok (), { s with objects := s.objects.filter (·.1 ≠ key) })
  | .extractIsolated content mediaType, .done, s =>
      some (cfg.etl.extractIsolated content mediaType, s)
  | .embed _ _, .reported model, s => some (.ok model, s)
  | .resolvedModel requested, .done, s =>
      let cached := (s.aliases.lookup requested).getD ""
      some (.ok (if cached = "" then requested else cached), s)
  | .rememberResolution requested reported, .done, s =>
      some (.ok (), { s with aliases := (requested, reported) :: s.aliases })
  | .acquire _, .done, s => some (.ok true, s)
  | .acquire _, .denied, s => some (.ok false, s)
  | .release _, .done, s => some (.ok (), s)
  | .enqueue task sentFor _, .done, s =>
      match me with
      | some message =>
          -- a task that sends its own message again has deferred itself
          if message.task = task then some (.ok true, s.replace message 0)
          else some (.ok true, s.send task 0 sentFor)
      | none => some (.ok true, s.send task 0 sentFor)
  | .enqueue _ _ _, .denied, s => some (.ok false, s)
  | .retry, .done, s =>
      match me with
      | some message => some (.ok (), s.replace message (message.retries + 1))
      | none => none
  | op, .raised e, s => if op.mayRaise e then some (.error e, s) else none
  | _, _, _ => none

end Shared

end Lumina.Knowledge
