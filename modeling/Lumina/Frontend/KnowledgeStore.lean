import Mathlib.Data.List.Basic

/-!
# The documents of the knowledge store

The documents of the knowledge store and what its functions do to them.  A function that awaits a
response is given by what it does before the request and what it does with the response.
-/

namespace Lumina.Frontend

/-- `DocumentOut` -/
structure DocumentOut where
  id : ℕ
  docVersion : ℕ
deriving DecidableEq, Repr

structure KnowledgeState where
  documents : List DocumentOut := []
  currentKbId : Option ℕ := none
  loadingDocuments : Bool := false
  documentsRequestId : ℕ := 0
deriving DecidableEq, Repr

namespace KnowledgeState

/-- `fetchDocuments` until its request, which has the new number. -/
def fetchDocuments (s : KnowledgeState) (kbId : ℕ) (silent : Bool) : KnowledgeState :=
  { s with
    documentsRequestId := s.documentsRequestId + 1
    currentKbId := some kbId
    loadingDocuments := if silent then s.loadingDocuments else true }

/-- The rest of `fetchDocuments`, with the page of the response, or nothing if the request fails. -/
def fetchedDocuments (s : KnowledgeState) (requestId : ℕ) (silent : Bool)
    (items : Option (List DocumentOut)) : KnowledgeState :=
  if requestId = s.documentsRequestId then
    { s with
      documents := items.getD s.documents
      loadingDocuments := if silent then s.loadingDocuments else false }
  else s

/-- The rest of `uploadDocument`. -/
def uploadedDocument (s : KnowledgeState) (kbId : ℕ) (created : DocumentOut) : KnowledgeState :=
  if some kbId = s.currentKbId then { s with documents := created :: s.documents } else s

/-- The rest of `deleteDocument`. -/
def deletedDocument (s : KnowledgeState) (documentId : ℕ) : KnowledgeState :=
  { s with documents := s.documents.filter (·.id ≠ documentId) }

/-- The rest of `reingestDocument`. -/
def reingestedDocument (s : KnowledgeState) (documentId : ℕ) (updated : DocumentOut) :
    KnowledgeState :=
  { s with
    documents := s.documents.map fun document =>
      if document.id = documentId then updated else document }

end KnowledgeState

end Lumina.Frontend
