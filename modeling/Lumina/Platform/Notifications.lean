import Lumina.Library.Server

/-!
# NotificationService

The notifications that carry a key against duplicates: one row for each recipient and key.  The
quota notifications are written once; the documents that become ready are collapsed into one row for
each knowledge base and time slot, whose count goes up.  The key strings are kept as their parts.

The rows without such a key, the mails that follow a commit and the times of the rows are left
out.
-/

namespace Lumina.Platform

open Interleaving ReadCommitted

namespace Notifications

abbrev UserId := ℕ
abbrev KbId := ℕ
abbrev DocumentId := ℕ

inductive EventType where
  | documentFailed
  | documentReady
  | quotaThreshold
  | evaluationCompleted
deriving DecidableEq, Repr

inductive Channel where
  | inApp
  | email
deriving DecidableEq, Repr

/-- `CHANNELS_BY_TYPE` -/
def declaredChannels : EventType → List Channel
  | .documentFailed | .quotaThreshold => [.inApp, .email]
  | .documentReady | .evaluationCompleted => [.inApp]

def channelsFor (emailEnabled : Bool) (eventType : EventType) : List Channel :=
  if emailEnabled then
    declaredChannels eventType
  else
    (declaredChannels eventType).filter fun channel => channel ≠ .email

/-- The parts of a deduplication key: `document.ready:{kb_id}:{slot}` and
`quota.threshold:{resource}:{period_start}:{threshold}`. -/
inductive DedupeKey where
  | documentReady (kbId : KbId) (slot : ℕ)
  | quotaThreshold (resource periodStart : String) (threshold : ℕ)
deriving DecidableEq, Repr

/-- `uq_notification_dedupe`, within the tenant. -/
structure Key where
  userId : UserId
  dedupeKey : DedupeKey
deriving DecidableEq, Repr

/-- The JSON object `meta`, whose entries may be absent. -/
structure Meta where
  kbId : Option KbId := none
  count : Option ℕ := none
  documentIds : Option (List DocumentId) := none
  filename : Option String := none
  resource : Option String := none
  threshold : Option ℕ := none
  used : Option ℕ := none
  limit : Option ℕ := none
deriving DecidableEq, Repr

structure Notification where
  type : EventType
  title : String
  body : String
  channels : List Channel
  info : Meta
  readAt : Option ℕ := none
deriving DecidableEq, Repr

inductive NotifyError where
  | integrityError
  | operationalError
deriving DecidableEq, Repr

section Programs

variable {E : Type} {R : E → Type}

/-- Programs of the service, with any operations outside the database. -/
abbrev Tx (R : E → Type) (α : Type) :=
  Program (Op.Reply (κ := Key) (ν := Notification) R) NotifyError α

variable (emailEnabled : Bool)

/-- `collapse_bucket`, of a time in seconds. -/
def collapseBucket (windowMinutes : ℕ) (kbId : KbId) (timestamp : ℕ) : DedupeKey :=
  .documentReady kbId (timestamp / (max windowMinutes 1 * 60))

/-- `_deliver`, with a deduplication key: the rows whose mail is still to be sent. -/
def deliver (eventType : EventType) (title body : String) (info : Meta) (dedupeKey : DedupeKey) :
    List UserId → Tx R (List Key)
  | [] => return []
  | userId :: recipients => do
    let key : Key := ⟨userId, dedupeKey⟩
    let channels := channelsFor emailEnabled eventType
    let existing ← query (.select key)
    if existing.isSome then
      deliver eventType title body info dedupeKey recipients
    else
      let created ← query (.insert key { type := eventType, title, body, channels, info })
      let pending ← deliver eventType title body info dedupeKey recipients
      return if created && channels.contains .email then key :: pending else pending

/-- The row of the first document of a slot. -/
def firstReady (filename : String) (kbId : KbId) (documentId : DocumentId) : Notification where
  type := .documentReady
  title := s!"{filename} 已完成"
  body := "可以開始問答了。"
  channels := channelsFor emailEnabled .documentReady
  info := { kbId := kbId, count := some 1, documentIds := some [documentId], filename := filename }

/-- `collapse`: the row after one more document, with what has been read of it before. -/
def collapsed (filename : String) (documentId : DocumentId) (existing row : Notification) :
    Notification :=
  let count := existing.info.count.getD 1 + 1
  let ids := (existing.info.documentIds.getD []).take 9 ++ [documentId]
  { row with
    title := s!"{count} 份文件已完成"
    body := s!"{filename} 等 {count} 份文件可以開始問答了。"
    info := { existing.info with count := some count, documentIds := some ids }
    readAt := none }

/-- The last part of `_deliver_ready`, where the row is locked. -/
def collapse (key : Key) (filename : String) (documentId : DocumentId)
    (existing : Notification) : Tx R (List Key) := do
  let _ ← query (.update key (collapsed filename documentId existing))
  return []

/-- `_deliver_ready` -/
def deliverReady (userId : UserId) (dedupeKey : DedupeKey) (filename : String) (kbId : KbId)
    (documentId : DocumentId) : Tx R (List Key) := do
  let key : Key := ⟨userId, dedupeKey⟩
  match ← query (.selectForUpdate key) with
  | some existing => collapse key filename documentId existing
  | none =>
    let row := firstReady emailEnabled filename kbId documentId
    let created ← query (.insert key row)
    if created then
      return if row.channels.contains .email then [key] else []
    else
      match ← query (.selectForUpdate key) with
      | some existing => collapse key filename documentId existing
      | none => return []

def deliverReadyAll (dedupeKey : DedupeKey) (filename : String) (kbId : KbId)
    (documentId : DocumentId) : List UserId → Tx R (List Key)
  | [] => return []
  | userId :: recipients => do
    let pending ← deliverReady emailEnabled userId dedupeKey filename kbId documentId
    let rest ← deliverReadyAll dedupeKey filename kbId documentId recipients
    return pending ++ rest

end Programs

end Notifications

end Lumina.Platform
