import Lumina.Knowledge.Operations

/-!
# DocumentService and the rescue of stuck documents

The requests of the users: upload, reingest and delete; and the scan that sends a message for
every document that has been waiting for one too long.  A message is sent after the transaction
has been committed, and a message that cannot be sent is no failure.
-/

namespace Lumina.Knowledge

open Interleaving

variable (cfg : Settings)

namespace DocumentService

/-- Removing the object of a failed upload; its own failure is ignored. -/
def discard (storageKey : ObjectKey) : Prog Unit :=
  (perform (.deleteObject storageKey)).handle fun _ => pure ()

/-- The upload of one document, after the checks of its content. -/
def upload (kb : KbId) (id : DocumentId) (content mediaType : String) : Prog Unit := do
  let contentHash := cfg.sha256 content
  let storageKey := buildDocumentKey kb id
  let _ ← tx (.checkUpload kb contentHash)
  let _ ← perform (.putObject storageKey content)
  let _ ← (tx (.createDocument id kb mediaType contentHash)).handle fun e => do
    discard storageKey
    match e with
    | .integrity _ => .raise (.conflict "這份文件已經在這個知識庫裡")
    | _ => .raise e
  let _ ← perform (.enqueue (.ingestDocument id) 1 0)
  pure ()

/-- A new version of a document. -/
def reingest (document : DocumentId) : Prog Unit := do
  let now ← perform .clock
  let version ← tx (.reingest document (now - cfg.etlInProgressStaleSeconds))
  let _ ← perform (.enqueue (.ingestDocument document) version 0)
  pure ()

def delete (document : DocumentId) : Prog Unit :=
  tx (.delete document)

end DocumentService

namespace StuckDocumentRescueService

/-- The task that continues a document from its status. -/
def taskFor (d : Document) : Task :=
  if d.status = .uploaded then .ingestDocument d.id else .embedDocument d.id

/-- One message for every document of the list. -/
def sendAll : List Document → Prog Unit
  | [] => pure ()
  | d :: stuck => do
      let _ ← perform (.enqueue (taskFor d) d.docVersion 0)
      sendAll stuck

def rescueTenant : Prog Unit := do
  let now ← perform .clock
  let stuck ← tx (.stuckIn rescuableStatuses (now - cfg.etlStuckAfterSeconds))
  sendAll stuck

end StuckDocumentRescueService

end Lumina.Knowledge
