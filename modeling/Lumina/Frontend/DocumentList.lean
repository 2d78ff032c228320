import Lumina.Frontend.KnowledgeStore
import Lumina.Library.Table
import Lumina.Library.Transition

/-!
# The document list and the server

One client of a knowledge base, and the server.  A request is served at once, and its response comes
at any later time.  A page that was made before a document was uploaded, deleted or re-ingested may
come when the store has already shown that, and takes it back; one that was made after an upload
may come before the response to it, and the document is shown twice.  When neither happens, nor an
upload is shown of a document that is gone by then, the list is that of the server whenever no
request is in flight.
-/

namespace Lumina.Frontend

open Transition

/-! ### The server -/

structure DocumentRow where
  id : ℕ
  kbId : ℕ
  docVersion : ℕ
deriving DecidableEq, Repr

def DocumentRow.view (row : DocumentRow) : DocumentOut where
  id := row.id
  docVersion := row.docVersion

/-- The documents that are not deleted, and the next identifier. -/
structure KnowledgeServer where
  documents : List DocumentRow := []
  nextId : ℕ := 0
deriving DecidableEq, Repr

namespace KnowledgeServer

/-- The identifiers of the documents of a knowledge base. -/
def ids (s : KnowledgeServer) (kbId : ℕ) : List ℕ :=
  (s.documents.filter (·.kbId = kbId)).map (·.id)

/-- `list_for_kb` -/
def listForKb (s : KnowledgeServer) (kbId : ℕ) : List DocumentOut :=
  (s.documents.filter (·.kbId = kbId)).map DocumentRow.view

/-- `upload` -/
def upload (s : KnowledgeServer) (kbId : ℕ) : DocumentOut × KnowledgeServer :=
  let row : DocumentRow := { id := s.nextId, kbId, docVersion := 1 }
  (row.view, { documents := row :: s.documents, nextId := s.nextId + 1 })

/-- `delete`, if the document is there. -/
def delete (s : KnowledgeServer) (id : ℕ) : Option KnowledgeServer :=
  if s.documents.any (·.id = id) then
    some { s with documents := s.documents.filter (·.id ≠ id) }
  else none

/-- `reingest`, if the document is there. -/
def reingest (s : KnowledgeServer) (id : ℕ) : Option (DocumentOut × KnowledgeServer) :=
  (s.documents.find? (·.id = id)).map fun row =>
    ({ row with docVersion := row.docVersion + 1 }.view,
      { s with
        documents :=
          Table.update (·.id = id) (fun row => { row with docVersion := row.docVersion + 1 })
            s.documents })

end KnowledgeServer

/-! ### The machine -/

/-- What has become of a request with an answer of a type. -/
inductive Exchange (α : Type) where
  | sent
  | refused
  | answered (answer : α)
  | delivered
deriving DecidableEq, Repr

/-- A request of the store. -/
inductive Flight where
  | list (kbId requestId : ℕ) (silent : Bool) (x : Exchange (List DocumentOut))
  | upload (kbId : ℕ) (x : Exchange DocumentOut)
  | delete (id : ℕ) (x : Exchange Unit)
  | reingest (id : ℕ) (x : Exchange DocumentOut)
deriving DecidableEq, Repr

namespace Flight

def delivered : Flight → Bool
  | .list _ _ _ x => x = .delivered
  | .upload _ x => x = .delivered
  | .delete _ x => x = .delivered
  | .reingest _ x => x = .delivered

/-- The response to the upload of the document into the knowledge base is on its way. -/
def uploads (kbId id : ℕ) : Flight → Bool
  | .upload kbId' (.answered created) => kbId' = kbId && created.id = id
  | _ => false

/-- The response to the deletion of the document is on its way. -/
def deletes (id : ℕ) : Flight → Bool
  | .delete id' (.answered ()) => id' = id
  | _ => false

/-- The page of the request with the number has not come. -/
def fetches (requestId : ℕ) : Flight → Bool
  | .list _ requestId' _ x => requestId' = requestId && x ≠ .delivered
  | _ => false

end Flight

/-- The store, the server, the requests, and what re-ingests have returned, the latest first. -/
structure DocumentList where
  store : KnowledgeState := {}
  server : KnowledgeServer := {}
  flights : List Flight := []
  reingested : List DocumentOut := []
deriving DecidableEq, Repr

inductive ListAction where
  | fetchDocuments (kbId : ℕ) (silent : Bool)
  | refreshDocuments
  | uploadDocument (kbId : ℕ)
  | deleteDocument (id : ℕ)
  | reingestDocument (id : ℕ)
  | serve (i : ℕ) (refuse : Bool)
  | deliver (i : ℕ)
deriving DecidableEq, Repr

namespace DocumentList

/-- `fetchDocuments` -/
def fetch (s : DocumentList) (kbId : ℕ) (silent : Bool) : DocumentList :=
  let store := s.store.fetchDocuments kbId silent
  { s with store, flights := s.flights ++ [.list kbId store.documentsRequestId silent .sent] }

/-- The request is served, or refused. -/
def serve (s : DocumentList) (i : ℕ) (refuse : Bool) : Flight → Option DocumentList
  | .list kbId requestId silent .sent =>
      let answer := if refuse then .refused else .answered (s.server.listForKb kbId)
      some { s with flights := s.flights.set i (.list kbId requestId silent answer) }
  | .upload kbId .sent =>
      if refuse then some { s with flights := s.flights.set i (.upload kbId .refused) }
      else
        let (created, server) := s.server.upload kbId
        some { s with server, flights := s.flights.set i (.upload kbId (.answered created)) }
  | .delete id .sent =>
      match if refuse then none else s.server.delete id with
      | none => some { s with flights := s.flights.set i (.delete id .refused) }
      | some server =>
          some { s with server, flights := s.flights.set i (.delete id (.answered ())) }
  | .reingest id .sent =>
      match if refuse then none else s.server.reingest id with
      | none => some { s with flights := s.flights.set i (.reingest id .refused) }
      | some (updated, server) =>
          some { s with server, flights := s.flights.set i (.reingest id (.answered updated)) }
  | _ => none

/-- The store gets the response. -/
def deliver (s : DocumentList) (i : ℕ) : Flight → Option DocumentList
  | .list kbId requestId silent (.answered items) =>
      some { s with
        store := s.store.fetchedDocuments requestId silent (some items)
        flights := s.flights.set i (.list kbId requestId silent .delivered) }
  | .list kbId requestId silent .refused =>
      some { s with
        store := s.store.fetchedDocuments requestId silent none
        flights := s.flights.set i (.list kbId requestId silent .delivered) }
  | .upload kbId (.answered created) =>
      some { s with
        store := s.store.uploadedDocument kbId created
        flights := s.flights.set i (.upload kbId .delivered) }
  | .delete id (.answered ()) =>
      some { s with
        store := s.store.deletedDocument id
        flights := s.flights.set i (.delete id .delivered) }
  | .reingest id (.answered updated) =>
      some { s with
        store := s.store.reingestedDocument id updated
        flights := s.flights.set i (.reingest id .delivered)
        reingested := updated :: s.reingested }
  | .upload kbId .refused => some { s with flights := s.flights.set i (.upload kbId .delivered) }
  | .delete id .refused => some { s with flights := s.flights.set i (.delete id .delivered) }
  | .reingest id .refused => some { s with flights := s.flights.set i (.reingest id .delivered) }
  | _ => none

def step (s : DocumentList) : ListAction → Option DocumentList
  | .fetchDocuments kbId silent => some (s.fetch kbId silent)
  | .refreshDocuments =>
      some <| match s.store.currentKbId with
      | none => s
      | some kbId => s.fetch kbId true
  | .uploadDocument kbId => some { s with flights := s.flights ++ [.upload kbId .sent] }
  | .deleteDocument id => some { s with flights := s.flights ++ [.delete id .sent] }
  | .reingestDocument id => some { s with flights := s.flights ++ [.reingest id .sent] }
  | .serve i refuse => s.flights[i]?.bind (s.serve i refuse)
  | .deliver i => s.flights[i]?.bind (s.deliver i)

/-- No request is in flight. -/
def quiet (s : DocumentList) : Bool := s.flights.all Flight.delivered

/-- The version that the latest completed re-ingest of the document has returned. -/
def lastReingested (s : DocumentList) (id : ℕ) : Option ℕ :=
  (s.reingested.find? (·.id = id)).map (·.docVersion)

/-- The list is that of the server, and no row is older than it may be. -/
def Converged (s : DocumentList) : Prop :=
  ∀ kbId ∈ s.store.currentKbId,
    (s.store.documents.map (·.id)).Perm (s.server.ids kbId) ∧
      ∀ row ∈ s.store.documents, ∀ version ∈ s.lastReingested row.id, version ≤ row.docVersion

instance (s : DocumentList) : Decidable s.Converged :=
  inferInstanceAs <| Decidable <| ∀ kbId ∈ s.store.currentKbId,
    (s.store.documents.map (·.id)).Perm (s.server.ids kbId) ∧
      ∀ row ∈ s.store.documents, ∀ version ∈ s.lastReingested row.id, version ≤ row.docVersion

/-! ### What may be shown -/

/-- The page of the latest request has come. -/
def settled (s : DocumentList) : Bool :=
  !s.flights.any (Flight.fetches s.store.documentsRequestId)

def uploading (s : DocumentList) (kbId id : ℕ) : Bool := s.flights.any (Flight.uploads kbId id)

def deleting (s : DocumentList) (id : ℕ) : Bool := s.flights.any (Flight.deletes id)

/-- The row may be shown: its document is there, or the response to its deletion is still to come;
and it is not older than what re-ingesting it has returned. -/
def Shows (s : DocumentList) (kbId : ℕ) (row : DocumentOut) : Prop :=
  (row.id ∈ s.server.ids kbId ∨ s.deleting row.id = true) ∧
    ∀ version ∈ s.lastReingested row.id, version ≤ row.docVersion

/-- The rows may be the list: each may be shown, each once, and a document that is missing is one
whose upload is still to be answered. -/
structure Fits (s : DocumentList) (kbId : ℕ) (rows : List DocumentOut) : Prop where
  nodup : (rows.map (·.id)).Nodup
  shows : ∀ row ∈ rows, s.Shows kbId row
  complete : ∀ id ∈ s.server.ids kbId, id ∈ rows.map (·.id) ∨ s.uploading kbId id = true

instance (s : DocumentList) (kbId : ℕ) (row : DocumentOut) : Decidable (s.Shows kbId row) :=
  inferInstanceAs (Decidable (_ ∧ ∀ version ∈ s.lastReingested row.id, version ≤ row.docVersion))

instance (s : DocumentList) (kbId : ℕ) (rows : List DocumentOut) : Decidable (s.Fits kbId rows) :=
  decidable_of_iff
    ((rows.map (·.id)).Nodup ∧ (∀ row ∈ rows, s.Shows kbId row) ∧
      ∀ id ∈ s.server.ids kbId, id ∈ rows.map (·.id) ∨ s.uploading kbId id = true)
    ⟨fun ⟨nodup, shows, complete⟩ => ⟨nodup, shows, complete⟩, fun h => ⟨h.1, h.2, h.3⟩⟩

/-- A response may come: a page of the latest request if it fits, the failure of that request if the
list as it is does, and the response to an upload into the current knowledge base if, unless such a
page is still to come, the document is not in the list and may be shown. -/
def Comes (s : DocumentList) (kbId : ℕ) : Flight → Prop
  | .list _ requestId _ (.answered items) =>
      requestId = s.store.documentsRequestId → s.Fits kbId items
  | .list _ requestId _ .refused =>
      requestId = s.store.documentsRequestId → s.Fits kbId s.store.documents
  | .upload kbId' (.answered created) =>
      kbId' = kbId → s.settled = true →
        created.id ∉ s.store.documents.map (·.id) ∧ s.Shows kbId created
  | _ => True

instance (s : DocumentList) (kbId : ℕ) : ∀ flight, Decidable (s.Comes kbId flight)
  | .list _ _ _ (.answered _) => inferInstanceAs (Decidable (_ → _))
  | .list _ _ _ .refused => inferInstanceAs (Decidable (_ → _))
  | .upload _ (.answered _) => inferInstanceAs (Decidable (_ → _ → _ ∧ _))
  | .list _ _ _ .sent => inferInstanceAs (Decidable True)
  | .list _ _ _ .delivered => inferInstanceAs (Decidable True)
  | .upload _ .sent => inferInstanceAs (Decidable True)
  | .upload _ .refused => inferInstanceAs (Decidable True)
  | .upload _ .delivered => inferInstanceAs (Decidable True)
  | .delete _ _ => inferInstanceAs (Decidable True)
  | .reingest _ _ => inferInstanceAs (Decidable True)

/-- No response takes back what the store has shown, nor shows something twice or after it is
gone. -/
def Guard (s : DocumentList) : ListAction → Prop
  | .deliver i => ∀ flight ∈ s.flights[i]?, ∀ kbId ∈ s.store.currentKbId, s.Comes kbId flight
  | _ => True

instance (s : DocumentList) : ∀ a, Decidable (s.Guard a)
  | .deliver i =>
      inferInstanceAs <| Decidable <|
        ∀ flight ∈ s.flights[i]?, ∀ kbId ∈ s.store.currentKbId, s.Comes kbId flight
  | .fetchDocuments _ _ => inferInstanceAs (Decidable True)
  | .refreshDocuments => inferInstanceAs (Decidable True)
  | .uploadDocument _ => inferInstanceAs (Decidable True)
  | .deleteDocument _ => inferInstanceAs (Decidable True)
  | .reingestDocument _ => inferInstanceAs (Decidable True)
  | .serve _ _ => inferInstanceAs (Decidable True)

end DocumentList

/-- The client and a server that holds some documents. -/
def documentList : Machine DocumentList ListAction where
  init s :=
    s = { server := s.server } ∧
      (s.server.documents.map (·.id)).Nodup ∧
      ∀ id ∈ s.server.documents.map (·.id), id < s.server.nextId
  step a s := s.step a

/-! ### What the server does to its documents -/

namespace KnowledgeServer

variable {s t : KnowledgeServer} {kbId id : ℕ}

theorem mem_ids :
  id ∈ s.ids kbId ↔ ∃ row ∈ s.documents, row.kbId = kbId ∧ row.id = id
  := by
  unfold ids
  simp only [List.mem_map, List.mem_filter, decide_eq_true_eq, and_assoc]

theorem ids_sublist (s : KnowledgeServer) (kbId : ℕ) :
  (s.ids kbId).Sublist (s.documents.map (·.id))
  := List.filter_sublist.map _

theorem mem_ids_upload {kbId' : ℕ} :
  id ∈ (s.upload kbId').2.ids kbId ↔ (kbId' = kbId ∧ s.nextId = id) ∨ id ∈ s.ids kbId
  := by
  rw [mem_ids, mem_ids]
  unfold upload
  dsimp only
  simp only [List.mem_cons, exists_eq_or_imp]

theorem map_upload (s : KnowledgeServer) (kbId : ℕ) :
  (s.upload kbId).2.documents.map (·.id) = s.nextId :: s.documents.map (·.id)
  := rfl

/-- The document was there, and is not any more. -/
theorem delete_eq_some (h : s.delete id = some t) :
  id ∈ s.documents.map (·.id) ∧ t.nextId = s.nextId ∧
    t.documents.map (·.id) = (s.documents.map (·.id)).filter (· ≠ id) ∧
    ∀ kbId id', id' ∈ t.ids kbId ↔ id' ∈ s.ids kbId ∧ id' ≠ id
  := by
  unfold delete at h
  split_ifs at h with there
  obtain ⟨row, mem, same⟩ := List.any_eq_true.mp there
  obtain rfl := Option.some.inj h
  refine ⟨List.mem_map.mpr ⟨row, mem, of_decide_eq_true same⟩, rfl, ?_, fun kbId id' => ?_⟩
  · rw [List.filter_map]
    rfl
  · rw [mem_ids, mem_ids]
    simp only [List.mem_filter, decide_eq_true_eq]
    constructor
    · rintro ⟨row, ⟨mem, other⟩, kb, rfl⟩
      exact ⟨⟨row, mem, kb, rfl⟩, other⟩
    · rintro ⟨⟨row, mem, kb, rfl⟩, other⟩
      exact ⟨row, ⟨mem, other⟩, kb, rfl⟩

/-- The documents are the same ones, and the answer is the one that was asked for. -/
theorem reingest_eq_some {updated : DocumentOut} (h : s.reingest id = some (updated, t)) :
  updated.id = id ∧ t.nextId = s.nextId ∧
    t.documents.map (·.id) = s.documents.map (·.id) ∧ ∀ kbId, t.ids kbId = s.ids kbId
  := by
  obtain ⟨row, found, eq⟩ := Option.map_eq_some_iff.mp h
  obtain ⟨rfl, rfl⟩ := Prod.mk.inj eq
  refine ⟨of_decide_eq_true (List.find?_some found :), rfl, ?_, fun kbId => ?_⟩
  · refine Table.map_update (·.id) ?_ s.documents
    exact fun _ => rfl
  · refine Table.map_filter_update (·.id) ?_ ?_ s.documents
    · exact fun _ => rfl
    · exact fun _ => rfl

end KnowledgeServer

/-! ### What a step can do -/

namespace Flight

/-- No response is on its way that tells of something the server has done to a document. -/
def inert : Flight → Bool
  | .upload _ (.answered _) => false
  | .delete _ (.answered _) => false
  | .reingest _ (.answered _) => false
  | _ => true

variable {flight : Flight}

theorem uploads_of_inert (h : flight.inert = true) (kbId id : ℕ) :
  flight.uploads kbId id = false
  := by
  unfold uploads
  split
  · cases h
  · rfl

theorem deletes_of_inert (h : flight.inert = true) (id : ℕ) :
  flight.deletes id = false
  := by
  unfold deletes
  split
  · cases h
  · rfl

theorem inert_of_delivered (h : flight.delivered = true) :
  flight.inert = true
  := by
  cases flight with
  | list => rfl
  | _ =>
    obtain rfl := of_decide_eq_true h
    rfl

theorem fetches_of_delivered (h : flight.delivered = true) (n : ℕ) :
  flight.fetches n = false
  := by
  cases flight with
  | list =>
    obtain rfl := of_decide_eq_true h
    exact Bool.and_false _
  | _ => rfl

end Flight

namespace DocumentList

variable {s t : DocumentList} {i : ℕ} {flight : Flight}

/-- The server does nothing to a document, or what was asked for. -/
theorem serve_cases {refuse : Bool} (h : s.serve i refuse flight = some t) :
  (∃ new, t = { s with flights := s.flights.set i new } ∧
    flight.inert = true ∧ new.inert = true ∧
    ∀ n, flight.fetches n = true → new.fetches n = true) ∨
  (∃ kbId, flight = .upload kbId .sent ∧
    t = { s with
      server := (s.server.upload kbId).2
      flights := s.flights.set i (.upload kbId (.answered (s.server.upload kbId).1)) }) ∨
  (∃ id server, flight = .delete id .sent ∧ s.server.delete id = some server ∧
    t = { s with server, flights := s.flights.set i (.delete id (.answered ())) }) ∨
  (∃ id updated server, flight = .reingest id .sent ∧
    s.server.reingest id = some (updated, server) ∧
    t = { s with server, flights := s.flights.set i (.reingest id (.answered updated)) })
  := by
  cases flight with
  | list kbId requestId silent x =>
    cases x with
    | sent =>
      refine Or.inl ⟨_, (Option.some.inj h).symm, rfl, rfl, fun n asked => ?_⟩
      cases refuse with
      | true => exact asked
      | false => exact asked
    | _ => cases h
  | upload kbId x =>
    cases x with
    | sent =>
      cases refuse with
      | true => exact Or.inl ⟨_, (Option.some.inj h).symm, rfl, rfl, nofun⟩
      | false => exact Or.inr (Or.inl ⟨kbId, rfl, (Option.some.inj h).symm⟩)
    | _ => cases h
  | delete id x =>
    cases x with
    | sent =>
      unfold serve at h
      dsimp only at h
      split at h
      next => exact Or.inl ⟨_, (Option.some.inj h).symm, rfl, rfl, nofun⟩
      next server done =>
        cases refuse with
        | true => cases done
        | false => exact Or.inr (Or.inr (Or.inl ⟨id, server, rfl, done, (Option.some.inj h).symm⟩))
    | _ => cases h
  | reingest id x =>
    cases x with
    | sent =>
      unfold serve at h
      dsimp only at h
      split at h
      next => exact Or.inl ⟨_, (Option.some.inj h).symm, rfl, rfl, nofun⟩
      next updated server done =>
        cases refuse with
        | true => cases done
        | false =>
          exact Or.inr (Or.inr (Or.inr ⟨id, updated, server, rfl, done, (Option.some.inj h).symm⟩))
    | _ => cases h

/-- The store gets a page or an error in its place, learns what was done to a document, or that
nothing was. -/
theorem deliver_cases (h : s.deliver i flight = some t) :
  (∃ kbId n silent, ∃ items : Option (List DocumentOut),
    flight = .list kbId n silent (items.elim .refused .answered) ∧
    t = { s with
      store := s.store.fetchedDocuments n silent items
      flights := s.flights.set i (.list kbId n silent .delivered) }) ∨
  (∃ kbId created, flight = .upload kbId (.answered created) ∧
    t = { s with
      store := s.store.uploadedDocument kbId created
      flights := s.flights.set i (.upload kbId .delivered) }) ∨
  (∃ id, flight = .delete id (.answered ()) ∧
    t = { s with
      store := s.store.deletedDocument id
      flights := s.flights.set i (.delete id .delivered) }) ∨
  (∃ id updated, flight = .reingest id (.answered updated) ∧
    t = { s with
      store := s.store.reingestedDocument id updated
      flights := s.flights.set i (.reingest id .delivered)
      reingested := updated :: s.reingested }) ∨
  (∃ new, t = { s with flights := s.flights.set i new } ∧
    flight.inert = true ∧ new.inert = true ∧
    ∀ n, flight.fetches n = true → new.fetches n = true)
  := by
  cases flight with
  | list kbId n silent x =>
    cases x with
    | answered items => exact Or.inl ⟨kbId, n, silent, some items, rfl, (Option.some.inj h).symm⟩
    | refused => exact Or.inl ⟨kbId, n, silent, none, rfl, (Option.some.inj h).symm⟩
    | _ => cases h
  | upload kbId x =>
    cases x with
    | answered created => exact Or.inr (Or.inl ⟨kbId, created, rfl, (Option.some.inj h).symm⟩)
    | refused =>
      exact Or.inr (Or.inr (Or.inr (Or.inr ⟨_, (Option.some.inj h).symm, rfl, rfl, nofun⟩)))
    | _ => cases h
  | delete id x =>
    cases x with
    | answered => exact Or.inr (Or.inr (Or.inl ⟨id, rfl, (Option.some.inj h).symm⟩))
    | refused =>
      exact Or.inr (Or.inr (Or.inr (Or.inr ⟨_, (Option.some.inj h).symm, rfl, rfl, nofun⟩)))
    | _ => cases h
  | reingest id x =>
    cases x with
    | answered updated =>
      exact Or.inr (Or.inr (Or.inr (Or.inl ⟨id, updated, rfl, (Option.some.inj h).symm⟩)))
    | refused =>
      exact Or.inr (Or.inr (Or.inr (Or.inr ⟨_, (Option.some.inj h).symm, rfl, rfl, nofun⟩)))
    | _ => cases h

/-! ### The identifiers -/

/-- The identifiers of the server are new, and stay away once they are deleted; and a re-ingest is
answered with its document. -/
structure Sound (s : DocumentList) : Prop where
  nodup : (s.server.documents.map (·.id)).Nodup
  fresh : ∀ id ∈ s.server.documents.map (·.id), id < s.server.nextId
  deleted : ∀ id, s.deleting id = true →
    id < s.server.nextId ∧ id ∉ s.server.documents.map (·.id)
  updated : ∀ id updated, .reingest id (.answered updated) ∈ s.flights → updated.id = id

/-- The server has the same identifiers, and there is no new response that tells of a document. -/
theorem Sound.of_inert (h : Sound s) (ids : t.server = s.server)
    (flights : ∀ flight ∈ t.flights, flight ∈ s.flights ∨ flight.inert = true) :
  Sound t
  where
  nodup := ids ▸ h.nodup
  fresh := ids ▸ h.fresh
  deleted := by
    intro id gone
    obtain ⟨flight, mem, deletes⟩ := List.any_eq_true.mp gone
    rcases flights flight mem with old | inert
    · rw [ids]
      exact h.deleted id (List.any_eq_true.mpr ⟨flight, old, deletes⟩)
    · exact absurd ((Flight.deletes_of_inert inert id).symm.trans deletes) Bool.false_ne_true
  updated := by
    intro id updated mem
    rcases flights _ mem with old | inert
    · exact h.updated id updated old
    · cases inert

theorem Sound.send (h : Sound s) (store : KnowledgeState) (inert : flight.inert = true) :
  Sound { s with store, flights := s.flights ++ [flight] }
  := by
  refine h.of_inert rfl fun flight' mem => ?_
  rcases List.mem_append.mp mem with old | new
  · exact Or.inl old
  · rw [List.mem_singleton.mp new]
    exact Or.inr inert

theorem Sound.set (h : Sound s) (store : KnowledgeState) (reingested : List DocumentOut)
    (inert : flight.inert = true) :
  Sound { s with store, reingested, flights := s.flights.set i flight }
  := by
  refine h.of_inert rfl fun flight' mem => ?_
  rcases List.mem_or_eq_of_mem_set mem with old | rfl
  · exact Or.inl old
  · exact Or.inr inert

theorem Sound.serve (h : Sound s) {refuse : Bool} (step : s.serve i refuse flight = some t) :
  Sound t
  := by
  rcases serve_cases step with ⟨new, rfl, -, inert, -⟩ | ⟨kbId, -, rfl⟩ |
    ⟨id, server, -, done, rfl⟩ | ⟨id, updated, server, -, done, rfl⟩
  · exact h.set _ _ inert
  · constructor
    · rw [KnowledgeServer.map_upload, List.nodup_cons]
      exact ⟨fun old => Nat.lt_irrefl _ (h.fresh _ old), h.nodup⟩
    · intro id mem
      rw [KnowledgeServer.map_upload] at mem
      rcases List.mem_cons.mp mem with rfl | old
      · exact Nat.lt_succ_self _
      · exact Nat.lt_succ_of_lt (h.fresh id old)
    · intro id gone
      rcases Table.any_of_set gone with new | old
      · cases new
      · obtain ⟨below, away⟩ := h.deleted id old
        rw [KnowledgeServer.map_upload, List.mem_cons, not_or]
        exact ⟨Nat.lt_succ_of_lt below, Nat.ne_of_lt below, away⟩
    · intro id updated mem
      rcases List.mem_or_eq_of_mem_set mem with old | new
      · exact h.updated id updated old
      · cases new
  · obtain ⟨there, next, ids, -⟩ := KnowledgeServer.delete_eq_some done
    constructor
    · rw [ids]
      exact h.nodup.filter _
    · intro id' mem
      rw [ids] at mem
      rw [next]
      exact h.fresh id' (List.mem_of_mem_filter mem)
    · intro id' gone
      rw [ids, next, List.mem_filter, decide_eq_true_eq, not_and_not_right]
      rcases Table.any_of_set gone with new | old
      · have same : id = id' := of_decide_eq_true new
        exact ⟨same ▸ h.fresh id there, fun _ => same.symm⟩
      · obtain ⟨below, away⟩ := h.deleted id' old
        exact ⟨below, fun mem => absurd mem away⟩
    · intro id' updated mem
      rcases List.mem_or_eq_of_mem_set mem with old | new
      · exact h.updated id' updated old
      · cases new
  · obtain ⟨same, next, ids, -⟩ := KnowledgeServer.reingest_eq_some done
    constructor
    · rw [ids]
      exact h.nodup
    · rw [ids, next]
      exact h.fresh
    · intro id gone
      rw [ids, next]
      rcases Table.any_of_set gone with new | old
      · cases new
      · exact h.deleted id old
    · intro id' updated' mem
      rcases List.mem_or_eq_of_mem_set mem with old | new
      · exact h.updated id' updated' old
      · cases new
        exact same

/-! ### The list -/

variable {kbId : ℕ} {rows : List DocumentOut}

/-- Rows go on to fit as long as nothing disappears without a response on its way, and nothing
appears without one. -/
theorem Fits.transfer (h : s.Fits kbId rows) (reingested : t.reingested = s.reingested)
    (there : ∀ id, id ∈ s.server.ids kbId ∨ s.deleting id = true →
      id ∈ t.server.ids kbId ∨ t.deleting id = true)
    (new : ∀ id ∈ t.server.ids kbId, id ∈ s.server.ids kbId ∨ t.uploading kbId id = true)
    (uploading : ∀ id, s.uploading kbId id = true → t.uploading kbId id = true) :
  t.Fits kbId rows
  where
  nodup := h.nodup
  shows := by
    intro row mem
    obtain ⟨known, version⟩ := h.shows row mem
    refine ⟨there row.id known, ?_⟩
    unfold lastReingested at *
    rwa [reingested]
  complete := by
    intro id mem
    rcases new id mem with old | now
    · exact (h.complete id old).imp_right (uploading id)
    · exact Or.inr now

/-- What has become of a request that tells of no document. -/
theorem Fits.set (h : s.Fits kbId rows) {old new : Flight} (at_ : s.flights[i]? = some old)
    (store : KnowledgeState) (uploads : ∀ id, old.uploads kbId id = false)
    (deletes : ∀ id, old.deletes id = false) :
  Fits { s with store, flights := s.flights.set i new } kbId rows
  := by
  refine h.transfer rfl ?_ (fun id mem => Or.inl mem) ?_
  · refine fun id known => known.imp_right (Table.any_set_of at_ fun holds => ?_)
    exact absurd ((deletes id).symm.trans holds) Bool.false_ne_true
  · refine fun id => Table.any_set_of at_ fun holds => ?_
    exact absurd ((uploads id).symm.trans holds) Bool.false_ne_true

/-- A page that is still to come is one that was still to come before. -/
theorem settled_of_set (h : t.settled = true) {new : Flight} (at_ : s.flights[i]? = some flight)
    (flights : t.flights = s.flights.set i new)
    (requestId : t.store.documentsRequestId = s.store.documentsRequestId)
    (fetches : flight.fetches s.store.documentsRequestId = true →
      new.fetches s.store.documentsRequestId = true) :
  s.settled = true
  := by
  unfold settled at *
  rw [Bool.not_eq_true', ← Bool.not_eq_true] at *
  rw [flights, requestId] at h
  exact fun asked => h (Table.any_set_of at_ fetches asked)

/-- The identifiers are sound, and the list fits when the latest page has come. -/
structure Coherent (s : DocumentList) : Prop where
  sound : s.Sound
  fits : s.settled = true → ∀ kbId ∈ s.store.currentKbId, s.Fits kbId s.store.documents

theorem Coherent.send (h : Coherent s) (inert : flight.inert = true) :
  Coherent { s with flights := s.flights ++ [flight] }
  where
  sound := h.sound.send _ inert
  fits := by
    intro settled kbId current
    have more : ∀ {p : Flight → Bool}, s.flights.any p = true →
        (s.flights ++ [flight]).any p = true := by
      intro p holds
      rw [List.any_append, holds, Bool.true_or]
    have before : s.settled = true := by
      unfold DocumentList.settled at *
      rw [Bool.not_eq_true'] at *
      rw [List.any_append, Bool.or_eq_false_iff] at settled
      exact settled.1
    refine (h.fits before kbId current).transfer rfl ?_ (fun id mem => Or.inl mem) fun id => more
    exact fun id known => known.imp_right more

/-- The page that has been asked for is still to come. -/
theorem Coherent.fetch (h : Coherent s) (kbId : ℕ) (silent : Bool) :
  Coherent (s.fetch kbId silent)
  where
  sound := h.sound.send _ rfl
  fits := by
    intro settled
    unfold DocumentList.settled DocumentList.fetch at settled
    dsimp only at settled
    rw [List.any_append, List.any_cons] at settled
    have asked : ∀ n, Flight.fetches n (.list kbId n silent .sent) = true := by
      intro n
      unfold Flight.fetches
      rw [Bool.and_eq_true, decide_eq_true_eq]
      exact ⟨rfl, rfl⟩
    rw [asked, Bool.true_or, Bool.or_true] at settled
    cases settled

theorem Coherent.serve (h : Coherent s) (at_ : s.flights[i]? = some flight) {refuse : Bool}
    (step : s.serve i refuse flight = some t) :
  Coherent t
  where
  sound := h.sound.serve step
  fits := by
    intro settled kbId current
    rcases serve_cases step with ⟨new, rfl, old, -, fetches⟩ | ⟨kbId', rfl, rfl⟩ |
      ⟨id, server, rfl, done, rfl⟩ | ⟨id, updated, server, rfl, done, rfl⟩
    · have before := settled_of_set settled at_ rfl rfl (fetches _)
      exact (h.fits before kbId current).set at_ _ (Flight.uploads_of_inert old kbId)
        (Flight.deletes_of_inert old)
    · -- the new document is one whose upload is still to be answered
      have before := settled_of_set settled at_ rfl rfl nofun
      refine (h.fits before kbId current).transfer rfl ?_ ?_ fun id => Table.any_set_of at_ nofun
      · intro id known
        refine known.imp (fun mem => ?_) (Table.any_set_of at_ nofun)
        exact KnowledgeServer.mem_ids_upload.mpr (Or.inr mem)
      · intro id mem
        rcases KnowledgeServer.mem_ids_upload.mp mem with ⟨rfl, rfl⟩ | old
        · refine Or.inr (Table.any_set_self at_ ?_)
          unfold Flight.uploads
          rw [Bool.and_eq_true, decide_eq_true_eq, decide_eq_true_eq]
          exact ⟨rfl, rfl⟩
        · exact Or.inl old
    · -- the response to the deletion is still to come
      have before := settled_of_set settled at_ rfl rfl nofun
      obtain ⟨-, -, -, ids⟩ := KnowledgeServer.delete_eq_some done
      refine (h.fits before kbId current).transfer rfl ?_ ?_ fun id => Table.any_set_of at_ nofun
      · intro id' known
        by_cases same : id = id'
        · exact Or.inr (Table.any_set_self at_ (decide_eq_true same))
        · refine known.imp (fun mem => ?_) (Table.any_set_of at_ nofun)
          exact (ids kbId id').mpr ⟨mem, Ne.symm same⟩
      · exact fun id' mem => Or.inl ((ids kbId id').mp mem).1
    · have before := settled_of_set settled at_ rfl rfl nofun
      obtain ⟨-, -, -, ids⟩ := KnowledgeServer.reingest_eq_some done
      refine (h.fits before kbId current).transfer rfl ?_ ?_ fun id => Table.any_set_of at_ nofun
      · intro id' known
        refine known.imp (fun mem => ?_) (Table.any_set_of at_ nofun)
        rw [ids]
        exact mem
      · intro id' mem
        rw [ids] at mem
        exact Or.inl mem

/-- A page comes, or the error in its place. -/
theorem Coherent.fetched (h : Coherent s) {n : ℕ} {silent : Bool}
    {items : Option (List DocumentOut)}
    (at_ : s.flights[i]? = some (.list kbId n silent (items.elim .refused .answered)))
    (guard : s.Guard (.deliver i)) :
  Coherent { s with
    store := s.store.fetchedDocuments n silent items
    flights := s.flights.set i (.list kbId n silent .delivered) }
  where
  sound := h.sound.set _ _ rfl
  fits := by
    intro settled kbId' current
    unfold KnowledgeState.fetchedDocuments at *
    dsimp only at *
    by_cases latest : n = s.store.documentsRequestId
    · rw [if_pos latest] at current ⊢
      have fits : s.Fits kbId' (items.getD s.store.documents) := by
        have allowed := guard _ at_ kbId' current
        cases items with
        | none => exact allowed latest
        | some items => exact allowed latest
      exact fits.set at_ _ (fun _ => rfl) (fun _ => rfl)
    · rw [if_neg latest] at settled current ⊢
      have before : s.settled = true := by
        refine settled_of_set settled at_ rfl rfl fun asked => ?_
        unfold Flight.fetches at asked
        rw [Bool.and_eq_true, decide_eq_true_eq] at asked
        exact absurd asked.1 latest
      exact (h.fits before kbId' current).set at_ _ (fun _ => rfl) (fun _ => rfl)

/-- The response to an upload comes. -/
theorem Coherent.uploaded (h : Coherent s) {created : DocumentOut}
    (at_ : s.flights[i]? = some (.upload kbId (.answered created)))
    (guard : s.Guard (.deliver i)) :
  Coherent { s with
    store := s.store.uploadedDocument kbId created
    flights := s.flights.set i (.upload kbId .delivered) }
  where
  sound := h.sound.set _ _ rfl
  fits := by
    intro settled kbId' current
    unfold KnowledgeState.uploadedDocument at *
    dsimp only at *
    by_cases here : some kbId = s.store.currentKbId
    · rw [if_pos here] at settled current ⊢
      have before : s.settled = true := settled_of_set settled at_ rfl rfl nofun
      have same : kbId = kbId' := Option.some.inj (here.trans current)
      have fits := h.fits before kbId' current
      obtain ⟨absent, known, version⟩ := guard _ at_ kbId' current same before
      constructor
      · rw [List.map_cons, List.nodup_cons]
        exact ⟨absent, fits.nodup⟩
      · rw [List.forall_mem_cons]
        refine ⟨⟨known.imp_right (Table.any_set_of at_ nofun), version⟩, fun row mem => ?_⟩
        exact (fits.shows row mem).imp_left (Or.imp_right (Table.any_set_of at_ nofun))
      · intro id mem
        rw [List.map_cons, List.mem_cons]
        rcases fits.complete id mem with shown | coming
        · exact Or.inl (Or.inr shown)
        · refine (Table.any_or_any_set at_ coming).imp_left fun this => Or.inl ?_
          change (decide (kbId = kbId') && decide (created.id = id)) = true at this
          rw [Bool.and_eq_true] at this
          exact (of_decide_eq_true this.2).symm
    · rw [if_neg here] at settled current ⊢
      have before : s.settled = true := settled_of_set settled at_ rfl rfl nofun
      have other : kbId ≠ kbId' := by
        rintro rfl
        exact here current.symm
      refine (h.fits before kbId' current).set at_ _ (fun id => ?_) (fun _ => rfl)
      change (decide (kbId = kbId') && decide (created.id = id)) = false
      rw [decide_eq_false other, Bool.false_and]

/-- The response to a deletion comes. -/
theorem Coherent.deleted (h : Coherent s) {id : ℕ}
    (at_ : s.flights[i]? = some (.delete id (.answered ()))) :
  Coherent { s with
    store := s.store.deletedDocument id
    flights := s.flights.set i (.delete id .delivered) }
  where
  sound := h.sound.set _ _ rfl
  fits := by
    intro settled kbId current
    have before : s.settled = true := settled_of_set settled at_ rfl rfl nofun
    have fits := h.fits before kbId current
    unfold KnowledgeState.deletedDocument
    dsimp only
    constructor
    · exact fits.nodup.sublist (List.filter_sublist.map _)
    · intro row mem
      obtain ⟨shown, other⟩ := List.mem_filter.mp mem
      refine (fits.shows row shown).imp_left (Or.imp_right (Table.any_set_of at_ fun this => ?_))
      have same : id = row.id := of_decide_eq_true this
      exact absurd same.symm (of_decide_eq_true other)
    · intro id' mem
      have away := (h.sound.deleted id (List.any_eq_true.mpr
        ⟨_, List.mem_of_getElem? at_, decide_eq_true rfl⟩)).2
      have other : id' ≠ id := by
        rintro rfl
        exact away ((KnowledgeServer.ids_sublist _ _).subset mem)
      refine (fits.complete id' mem).imp (fun shown => ?_) (Table.any_set_of at_ nofun)
      obtain ⟨row, there, rfl⟩ := List.mem_map.mp shown
      exact List.mem_map_of_mem (List.mem_filter.mpr ⟨there, decide_eq_true other⟩)

/-- The response to a re-ingest comes. -/
theorem Coherent.reingested (h : Coherent s) {id : ℕ} {updated : DocumentOut}
    (at_ : s.flights[i]? = some (.reingest id (.answered updated))) :
  Coherent { s with
    store := s.store.reingestedDocument id updated
    flights := s.flights.set i (.reingest id .delivered)
    reingested := updated :: s.reingested }
  where
  sound := h.sound.set _ _ rfl
  fits := by
    intro settled kbId current
    have before : s.settled = true := settled_of_set settled at_ rfl rfl nofun
    have fits := h.fits before kbId current
    have same : updated.id = id := h.sound.updated id updated (List.mem_of_getElem? at_)
    have ids : (s.store.documents.map fun row => if row.id = id then updated else row).map (·.id) =
        s.store.documents.map (·.id) := by
      rw [List.map_map]
      apply List.map_congr_left
      intro row _
      rw [Function.comp_apply]
      split_ifs with this
      · exact same.trans this.symm
      · rfl
    unfold KnowledgeState.reingestedDocument
    dsimp only
    constructor
    · rw [ids]
      exact fits.nodup
    · intro row mem
      obtain ⟨old, there, rfl⟩ := List.mem_map.mp mem
      obtain ⟨known, version⟩ := fits.shows old there
      unfold Shows lastReingested
      rw [List.find?_cons]
      split_ifs with this
      · rw [decide_eq_true rfl]
        refine ⟨?_, fun v is => Nat.le_of_eq (Option.some.inj is).symm⟩
        rw [same, ← this]
        exact known.imp_right (Table.any_set_of at_ nofun)
      · have other : updated.id ≠ old.id := fun eq => this (eq.symm.trans same)
        rw [decide_eq_false other]
        exact ⟨known.imp_right (Table.any_set_of at_ nofun), version⟩
    · intro id' mem
      rw [ids]
      exact (fits.complete id' mem).imp_right (Table.any_set_of at_ nofun)

theorem Coherent.deliver (h : Coherent s) (at_ : s.flights[i]? = some flight)
    (guard : s.Guard (.deliver i)) (step : s.deliver i flight = some t) :
  Coherent t
  := by
  rcases deliver_cases step with ⟨kbId, n, silent, items, rfl, rfl⟩ | ⟨kbId, created, rfl, rfl⟩ |
    ⟨id, rfl, rfl⟩ | ⟨id, updated, rfl, rfl⟩ | ⟨new, rfl, old, inert, fetches⟩
  · exact h.fetched at_ guard
  · exact h.uploaded at_ guard
  · exact h.deleted at_
  · exact h.reingested at_
  · constructor
    · exact h.sound.set _ _ inert
    · intro settled kbId current
      have before := settled_of_set settled at_ rfl rfl (fetches _)
      exact (h.fits before kbId current).set at_ _ (Flight.uploads_of_inert old kbId)
        (Flight.deletes_of_inert old)

theorem Coherent.step (h : Coherent s) {a : ListAction} (guard : s.Guard a)
    (step : s.step a = some t) :
  Coherent t
  := by
  cases a with
  | fetchDocuments kbId silent =>
    obtain rfl := Option.some.inj step
    exact h.fetch kbId silent
  | refreshDocuments =>
    obtain rfl := Option.some.inj step
    split
    · exact h
    · exact h.fetch _ true
  | uploadDocument kbId =>
    obtain rfl := Option.some.inj step
    exact h.send rfl
  | deleteDocument id =>
    obtain rfl := Option.some.inj step
    exact h.send rfl
  | reingestDocument id =>
    obtain rfl := Option.some.inj step
    exact h.send rfl
  | serve i refuse =>
    obtain ⟨flight, at_, served⟩ := Option.bind_eq_some_iff.mp step
    exact h.serve at_ served
  | deliver i =>
    obtain ⟨flight, at_, delivered⟩ := Option.bind_eq_some_iff.mp step
    exact h.deliver at_ guard delivered

/-- A list that fits is that of the server when no request is in flight. -/
theorem Coherent.converged (h : Coherent s) (quiet : s.quiet = true) :
  Converged s
  := by
  have over_ : ∀ {p : Flight → Bool}, (∀ flight : Flight, flight.delivered → p flight = false) →
      s.flights.any p = false := by
    intro p away
    rw [List.any_eq_false]
    intro flight mem
    rw [away flight (List.all_eq_true.mp quiet flight mem)]
    exact Bool.false_ne_true
  have uploading : ∀ kbId id, s.uploading kbId id = false := fun kbId id =>
    over_ fun flight done => Flight.uploads_of_inert (Flight.inert_of_delivered done) kbId id
  have deleting : ∀ id, s.deleting id = false := fun id =>
    over_ fun flight done => Flight.deletes_of_inert (Flight.inert_of_delivered done) id
  have settled : s.settled = true := by
    unfold DocumentList.settled
    rw [over_ fun flight done => Flight.fetches_of_delivered done _]
    rfl
  intro kbId current
  have fits := h.fits settled kbId current
  refine ⟨?_, fun row mem => (fits.shows row mem).2⟩
  rw [List.perm_ext_iff_of_nodup fits.nodup
    (h.sound.nodup.sublist (KnowledgeServer.ids_sublist s.server kbId))]
  intro id
  constructor
  · intro mem
    obtain ⟨row, shown, rfl⟩ := List.mem_map.mp mem
    rcases (fits.shows row shown).1 with there | gone
    · exact there
    · rw [deleting] at gone
      cases gone
  · intro mem
    rcases fits.complete id mem with shown | coming
    · exact shown
    · rw [uploading] at coming
      cases coming

end DocumentList

/-- In every run in which no response takes back what the store has shown, nor shows a document
twice or after it is gone, the list is that of the server whenever no request is in flight. -/
theorem document_list_converges {h : List (DocumentList × ListAction)} {s : DocumentList}
    (run : documentList.Run h s) (guard : ∀ x ∈ h, x.1.Guard x.2) :
  ∀ u ∈ Machine.states h s, u.quiet = true → u.Converged
  := by
  have coherent := run.forall_states_of_guard (I := DocumentList.Coherent)
    (G := DocumentList.Guard) ?_ (fun a s t h guard step => h.step guard step) guard
  · exact fun u mem quiet => (coherent u mem).converged quiet
  · rintro s ⟨start, nodup, fresh⟩
    have flights : s.flights = [] := congrArg DocumentList.flights start
    have current : s.store.currentKbId = none :=
      congrArg (fun s : DocumentList => s.store.currentKbId) start
    refine ⟨⟨nodup, fresh, fun id gone => ?_, fun id updated mem => ?_⟩, fun _ kbId mem => ?_⟩
    · unfold DocumentList.deleting at gone
      rw [flights] at gone
      cases gone
    · rw [flights] at mem
      cases mem
    · rw [current] at mem
      cases mem

/-- A client, and a server with one document. -/
def oneDocument : DocumentList where
  server := { documents := [{ id := 0, kbId := 7, docVersion := 1 }], nextId := 1 }

theorem init_oneDocument :
  documentList.init oneDocument
  := by
  refine ⟨rfl, ?_, ?_⟩
  · decide
  · decide

/-- A page that was made before the document was deleted comes before the response to that. -/
theorem document_list_converges_in_order :
  ∃ h s, documentList.Run h s ∧ s.quiet = true ∧ s.server.documents = [] ∧ s.Converged
  := by
  obtain ⟨h, s, run, guard, hs⟩ :=
    documentList.exists_run_of_execWhile
      [.fetchDocuments 7 false, .serve 0 false, .deliver 0, .refreshDocuments, .serve 1 false,
        .deleteDocument 0, .serve 2 false, .deliver 1, .deliver 2]
      (fun s a => decide (s.Guard a))
      (fun s => s.quiet && decide (s.server.documents = [])) init_oneDocument (by decide +kernel)
  rw [Bool.and_eq_true, decide_eq_true_eq] at hs
  obtain ⟨quiet, empty⟩ := hs
  have converges :=
    document_list_converges run (fun x hx => of_decide_eq_true (guard x hx))
  exact ⟨h, s, run, quiet, empty, converges s List.mem_cons_self quiet⟩

/-- The page comes after the response to the deletion, and shows the document again. -/
theorem deleted_document_reappears :
  ∃ h s, documentList.Run h s ∧ s.quiet = true ∧ s.server.documents = [] ∧
    s.store.documents = [{ id := 0, docVersion := 1 }] ∧ ¬s.Converged
  := by
  obtain ⟨h, s, run, hs⟩ :=
    documentList.exists_run_of_exec
      [.fetchDocuments 7 false, .serve 0 false, .deliver 0, .refreshDocuments, .serve 1 false,
        .deleteDocument 0, .serve 2 false, .deliver 2, .deliver 1]
      (fun s => s.quiet && decide (s.server.documents = [] ∧
        s.store.documents = [{ id := 0, docVersion := 1 }] ∧ ¬s.Converged))
      init_oneDocument (by decide +kernel)
  rw [Bool.and_eq_true, decide_eq_true_eq] at hs
  exact ⟨h, s, run, hs⟩

end Lumina.Frontend
