import Lumina.Core.Errors

/-!
# Document statuses, and the exceptions of the pipeline

The state machine of a document is `uploaded → parsing → cleaned → chunked → embedding → ready`,
with `failed` as the other ending.  The named sets say which statuses count as what; every
service uses these sets.

`Exn` has the exceptions that pass through the services of the pipeline, as far as some handler
tells them apart, and `errorPayload` is what a failure leaves in the database.
-/

namespace Lumina.Knowledge

/-- The values of `documents.status`. -/
inductive DocumentStatus where
  | uploaded
  | parsing
  | cleaned
  | chunked
  | embedding
  | ready
  | failed
deriving DecidableEq, Repr

namespace DocumentStatus

/-- Every status, in the order of the pipeline. -/
def all : List DocumentStatus :=
  [.uploaded, .parsing, .cleaned, .chunked, .embedding, .ready, .failed]

theorem mem_all (status : DocumentStatus) : status ∈ all := by
  cases status
  all_goals decide

end DocumentStatus

open DocumentStatus

/-- The endings. -/
def terminalStatuses : List DocumentStatus := [ready, failed]

/-- Some task is writing the document. -/
def inProgressStatuses : List DocumentStatus := [parsing, cleaned, embedding]

/-- There should be a message for the document; the rescue scan sends another one. -/
def rescuableStatuses : List DocumentStatus := [uploaded, chunked]

/-- The statuses in which an embedding task may begin. -/
def embeddableStatuses : List DocumentStatus := [chunked, embedding, ready]

/-- Everything that is not an ending. -/
def stillProcessingStatuses : List DocumentStatus :=
  DocumentStatus.all.filter (· ∉ terminalStatuses)

/-- A document that is still being processed is either waiting for a message or in the hands of
a task. -/
theorem mem_stillProcessingStatuses (status : DocumentStatus) :
  status ∈ stillProcessingStatuses ↔ status ∈ rescuableStatuses ∨ status ∈ inProgressStatuses
  := by
  cases status
  all_goals decide

theorem not_mem_inProgress_of_rescuable {status : DocumentStatus}
    (h : status ∈ rescuableStatuses) :
  status ∉ inProgressStatuses
  := by
  cases status
  all_goals revert h
  all_goals decide

/-- The stages of the pipeline that have a job row. -/
inductive Stage where
  | extract
  | clean
  | chunk
  | embed
deriving DecidableEq, Repr

/-- The subclasses of `DomainError` that the pipeline raises. -/
inductive DomainErrorClass where
  | notFound
  | validationFailed
  | conflict
  | extractionFailed
  | objectNotFound
  | crossTenantObjectKey
  | provider (cls : ProviderErrorClass)
deriving DecidableEq, Repr

namespace DomainErrorClass

/-- The class attribute `code`. -/
def code : DomainErrorClass → ErrorCode
  | .notFound => .resourceNotFound
  | .validationFailed => .validationFailed
  | .conflict => .resourceConflict
  | .extractionFailed => .etlFailed
  | .objectNotFound => .internalError
  | .crossTenantObjectKey => .internalError
  | .provider cls => cls.code

/-- The name of the class. -/
def name : DomainErrorClass → String
  | .notFound => "NotFoundError"
  | .validationFailed => "ValidationFailedError"
  | .conflict => "ConflictError"
  | .extractionFailed => "ExtractionFailedError"
  | .objectNotFound => "ObjectNotFoundError"
  | .crossTenantObjectKey => "CrossTenantObjectKeyError"
  | .provider cls => cls.name

end DomainErrorClass

/-- An exception of the code itself; `cause` is the entry of that name in its details. -/
structure DomainError where
  cls : DomainErrorClass
  message : String
  cause : Option String := none
deriving DecidableEq, Repr

/-- `str(exc)`. -/
def DomainError.text (e : DomainError) : String :=
  "[" ++ e.cls.code.text ++ "] " ++ e.message

/-- An exception, as far as a handler of the pipeline tells it apart. -/
inductive Exn where
  | domain (e : DomainError)
  /-- `OSError` and its subclasses, by the name of the class. -/
  | os (name : String)
  /-- An `IntegrityError` of the database, by the name of the class. -/
  | integrity (name : String)
  /-- Any other subclass of `Exception`, by the name of the class. -/
  | other (name : String)
  /-- Celery's `Retry`. -/
  | retry
deriving DecidableEq, Repr

namespace Exn

def notFound (message : String) : Exn := .domain { cls := .notFound, message := message }

def conflict (message : String) : Exn := .domain { cls := .conflict, message := message }

def isNotFound : Exn → Bool
  | .domain e => e.cls = .notFound
  | _ => false

def isConflict : Exn → Bool
  | .domain e => e.cls = .conflict
  | _ => false

/-- `_PERMANENT_FAILURES` of the ingestion: another attempt has no other result. -/
def isPermanentFailure : Exn → Bool
  | .domain e => e.cls = .extractionFailed || e.cls = .objectNotFound
  | _ => false

/-- The error of a provider, if it is one. -/
def provider? : Exn → Option ProviderErrorClass
  | .domain { cls := .provider cls, .. } => some cls
  | _ => none

/-- `type(exc).__name__`. -/
def typeName : Exn → String
  | .domain e => e.cls.name
  | .os name => name
  | .integrity name => name
  | .other name => name
  | .retry => "Retry"

end Exn

/-- The message shown for an exception that is not of the code itself. -/
def internalFailureMessage : String := "處理失敗，請稍後重試或聯絡管理員"

/-- The structured record of a failure. -/
structure ErrorPayload where
  cause : String
  message : String
deriving DecidableEq, Repr

/-- Only the code's own exceptions have their message recorded. -/
def errorPayload : Exn → ErrorPayload
  | .domain e =>
      { cause := match e.cause with
          | some cause => if cause = "" then e.cls.name else cause
          | none => e.cls.name
        message := e.text }
  | e => { cause := e.typeName, message := internalFailureMessage }

/-- `document.error`: the failed stage, the payload, and whether it is worth another attempt. -/
structure DocumentError where
  stage : Stage
  payload : ErrorPayload
  retryable : Bool
  attempts : Option ℕ := none
deriving DecidableEq, Repr

/-- The message of an exception from outside the code is never recorded. -/
theorem errorPayload_message {e : Exn} (h : ∀ d, e ≠ .domain d) :
  (errorPayload e).message = internalFailureMessage
  := by
  cases e with
  | domain d => exact absurd rfl (h d)
  | os name => rfl
  | integrity name => rfl
  | other name => rfl
  | retry => rfl

end Lumina.Knowledge
