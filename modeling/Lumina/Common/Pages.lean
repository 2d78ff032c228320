import Lumina.Common.Listings

/-!
# The services that list by pages

`ConversationService` lists the conversations of a user and the messages of a conversation,
`AuditService` the audit log and `NotificationService` the inbox.  All of them turn a cursor that
cannot be decoded into a `ValidationFailedError`.  One that is decoded to a dictionary without a
time and an identifier is found out by the repository, and only the last two services turn its
error.
-/

namespace Lumina.Common

open Fallible (error_of_bind error_of_orRaise orRaise toOption_mapError)
open IsoText (DateTime Uuid)
open Knowledge (Exn)
open PyJson (Str Value str)

/-! ### The services -/

/-- The tables that are listed. -/
structure Tables where
  conversations : Rows ConversationRow ConversationRow.id
  messages : Rows MessageRow MessageRow.id
  auditLogs : Rows AuditRow AuditRow.id
  notifications : Rows NotificationRow NotificationRow.id

def conversationNotFound : Exn :=
  .domain { cls := .notFound, message := "對話不存在" }

section

variable (tables : Tables) (reader : CursorReader) (tenantId userId : Uuid) (limit : ℕ)

/-- `ConversationService.list_for_user`. -/
def listForUser (cursor : Option (List Char)) : Served (CursorPage ConversationRow) :=
  (pageForUser tenantId userId).serve reader tables.conversations.all limit cursor

/-- `ConversationRepository.get_by_id`. -/
def getById (conversationId : Uuid) : Served (Option ConversationRow) where
  queries := [.byId conversationId]
  result := .ok (tables.conversations.all.find? fun row =>
    row.tenantId = tenantId && row.deletedAt.isNone && row.id = conversationId)

/-- `_require_own`. -/
def requireOwn (conversationId : Uuid) : Served ConversationRow := do
  let conversation ← getById tables tenantId conversationId
  orRaise conversationNotFound (conversation.filter (·.userId = userId))

/-- `ConversationService.list_messages`. -/
def listMessages (conversationId : Uuid) (cursor : Option (List Char)) :
    Served (CursorPage MessageRow) := do
  let _ ← requireOwn tables tenantId userId conversationId
  (pageForConversation tenantId conversationId).serve reader tables.messages.all limit cursor

/-- `AuditService.query`, with the times at which the dates of its filter begin. -/
def query (filter : AuditFilter) (cursor : Option (List Char)) : Served (CursorPage AuditRow) := do
  let found ← Served.mapError translated do
    (auditPage tenantId filter).rowsFor reader tables.auditLogs.all limit cursor
  cursorPage found

/-- `NotificationRepository.unread_count`. -/
def unreadCount : Served ℕ where
  queries := [.unreadCount]
  result := .ok (tables.notifications.all.countP (inboxPage tenantId userId true).visible)

/-- `NotificationService.inbox`, a page and the number of all that are unread. -/
def inbox (unreadOnly : Bool) (cursor : Option (List Char)) :
    Served (CursorPage NotificationRow × ℕ) := do
  let (found, unread) ← Served.mapError translated do
    let found ← (inboxPage tenantId userId unreadOnly).rowsFor reader tables.notifications.all limit
      cursor
    let unread ← unreadCount tables tenantId userId
    pure (found, unread)
  let page ← cursorPage found
  pure (page, unread)

/-- The conversation is there, and the user's own. -/
def IsOwn (conversationId : Uuid) : Prop :=
  ∃ row ∈ tables.conversations.all, row.tenantId = tenantId ∧ row.deletedAt = none ∧
    row.id = conversationId ∧ row.userId = userId

end

/-! ### Complete walks -/

section

variable {α : Type} {serve serve' : Option (List Char) → Except Exn (CursorPage α)}

/-- A walk depends on the pages that are served, and not on the errors. -/
theorem walk_congr (h : ∀ cursor, (serve cursor).toOption = (serve' cursor).toOption) (n : ℕ)
    (cursor : Option (List Char)) :
  walk serve n cursor = walk serve' n cursor
  := by
  induction n generalizing cursor with
  | zero => rfl
  | succ n ih =>
    have same := h cursor
    rw [walk, walk]
    cases first : serve cursor with
    | error e =>
      cases second : serve' cursor with
      | error e' => rfl
      | ok page' =>
        rw [first, second] at same
        cases same
    | ok page =>
      cases second : serve' cursor with
      | error e' =>
        rw [first, second] at same
        cases same
      | ok page' =>
        rw [first, second] at same
        cases same
        obtain ⟨items, nextCursor⟩ := page
        cases nextCursor with
        | none => rfl
        | some next =>
          dsimp only
          rw [ih]

theorem Enumerates.congr {l : Listing α} {rows : Rows α l.id} (walks : Enumerates l rows serve)
    (h : ∀ cursor, (serve cursor).toOption = (serve' cursor).toOption) :
  Enumerates l rows serve'
  := by
  obtain ⟨items, walks, same, ordered⟩ := walks
  refine ⟨items, ?_, same, ordered⟩
  intro n enough
  rw [← walk_congr h]
  exact walks n enough

end

variable {tables : Tables} {reader : CursorReader} {tenantId userId : Uuid} {limit : ℕ}

/-- The conversation that is found is the one with the identifier. -/
theorem getById_result {row : ConversationRow} (inside : row ∈ tables.conversations.all)
    (tenant : row.tenantId = tenantId) (kept : row.deletedAt = none) :
  (getById tables tenantId row.id).result = .ok (some row)
  := by
  unfold getById
  dsimp only
  cases found : tables.conversations.all.find? fun other =>
      other.tenantId = tenantId && other.deletedAt.isNone && other.id = row.id with
  | none =>
    have absent := List.find?_eq_none.mp found row inside
    rw [tenant, kept] at absent
    simp at absent
  | some other =>
    have passes := List.find?_some found
    simp only [Bool.and_eq_true, decide_eq_true_eq] at passes
    have same : other = row :=
      List.inj_on_of_nodup_map tables.conversations.unique (List.mem_of_find?_eq_some found) inside
        passes.2
    rw [same]

/-- Whoever owns a conversation may see it. -/
theorem requireOwn_of_isOwn {conversationId : Uuid}
    (own : IsOwn tables tenantId userId conversationId) :
  ∃ row, (requireOwn tables tenantId userId conversationId).result = .ok row
  := by
  obtain ⟨row, inside, tenant, kept, rfl, user⟩ := own
  refine ⟨row, ?_⟩
  rw [requireOwn, Served.bind_result, getById_result inside tenant kept]
  change orRaise conversationNotFound ((some row).filter (·.userId = userId)) = _
  rw [Option.filter_some_pos (by simpa using user)]
  rfl

/-- Others are told that it does not exist. -/
theorem requireOwn_of_not_isOwn {conversationId : Uuid}
    (foreign : ¬ IsOwn tables tenantId userId conversationId) :
  (requireOwn tables tenantId userId conversationId).result = .error conversationNotFound
  := by
  rw [requireOwn, Served.bind_result, getById]
  dsimp only [Except.bind]
  cases found : tables.conversations.all.find? fun other =>
      other.tenantId = tenantId && other.deletedAt.isNone && other.id = conversationId with
  | none => rfl
  | some row =>
    have passes := List.find?_some found
    simp only [Bool.and_eq_true, decide_eq_true_eq, Option.isNone_iff_eq_none] at passes
    obtain ⟨⟨tenant, kept⟩, same⟩ := passes
    have other : row.userId ≠ userId := by
      intro user
      exact foreign ⟨row, List.mem_of_find?_eq_some found, tenant, kept, same, user⟩
    change orRaise conversationNotFound ((some row).filter (·.userId = userId)) = _
    rw [Option.filter_some_neg (by simpa using other)]
    rfl

@[simp]
theorem requireOwn_queries (conversationId : Uuid) :
  (requireOwn tables tenantId userId conversationId).queries = [.byId conversationId]
  := rfl

/-- Of one's own conversation the messages are served. -/
theorem listMessages_of_isOwn {conversationId : Uuid}
    (own : IsOwn tables tenantId userId conversationId) (cursor : Option (List Char)) :
  (listMessages tables reader tenantId userId limit conversationId cursor).result =
    ((pageForConversation tenantId conversationId).serve reader tables.messages.all limit
      cursor).result
  := by
  obtain ⟨row, found⟩ := requireOwn_of_isOwn own
  rw [listMessages, Served.bind_result, found]
  rfl

theorem query_toOption (filter : AuditFilter) (cursor : Option (List Char)) :
  (query tables reader tenantId limit filter cursor).result.toOption =
    ((auditPage tenantId filter).serve reader tables.auditLogs.all limit cursor).result.toOption
  := by
  rw [query, Listing.serve, Served.bind_result, Served.bind_result, Served.mapError]
  cases ((auditPage tenantId filter).rowsFor reader tables.auditLogs.all limit cursor).result with
  | error e => rfl
  | ok found => rfl

theorem inbox_toOption (unreadOnly : Bool) (cursor : Option (List Char)) :
  ((inbox tables reader tenantId userId limit unreadOnly cursor).result.map Prod.fst).toOption =
    ((inboxPage tenantId userId unreadOnly).serve reader tables.notifications.all limit
      cursor).result.toOption
  := by
  rw [inbox, Listing.serve, Served.bind_result, Served.bind_result, Served.mapError,
    Served.bind_result]
  cases ((inboxPage tenantId userId unreadOnly).rowsFor reader tables.notifications.all limit
      cursor).result with
  | error e => rfl
  | ok found =>
    simp only [unreadCount, Served.bind_result, Served.lift_result, Served.pure_result,
      Except.bind, Except.mapError]
    cases cursorPage found with
    | error e => rfl
    | ok page => rfl

/-- Whoever follows the cursors sees each row of a listing once and in order, and a cursor is
decoded to the time and the identifier that were encoded. -/
theorem pagination_complete (tables : Tables) (reader : CursorReader) (tenantId userId : Uuid)
    {limit : ℕ} (positive : 1 ≤ limit) :
  (Enumerates (pageForUser tenantId userId) tables.conversations fun cursor =>
    (listForUser tables reader tenantId userId limit cursor).result) ∧
  (∀ conversationId, IsOwn tables tenantId userId conversationId →
    Enumerates (pageForConversation tenantId conversationId) tables.messages fun cursor =>
      (listMessages tables reader tenantId userId limit conversationId cursor).result) ∧
  (∀ filter, Enumerates (auditPage tenantId filter) tables.auditLogs fun cursor =>
    (query tables reader tenantId limit filter cursor).result) ∧
  (∀ unreadOnly,
    Enumerates (inboxPage tenantId userId unreadOnly) tables.notifications fun cursor =>
      (inbox tables reader tenantId userId limit unreadOnly cursor).result.map Prod.fst) ∧
  ∀ t id, ∃ cursor members, encodeCursor (cursorOf t id) = .ok cursor ∧
    reader.decodeCursor cursor = .ok members ∧ reader.cursorKey members = .ok (t, id)
  := by
  refine ⟨?_, ?_, ?_, ?_, ?_⟩
  · exact enumerates (pageForUser tenantId userId) tables.conversations reader positive
  · intro conversationId own
    have served := enumerates (pageForConversation tenantId conversationId) tables.messages reader
      positive
    apply served.congr
    intro cursor
    rw [listMessages_of_isOwn own]
  · intro filter
    apply (enumerates (auditPage tenantId filter) tables.auditLogs reader positive).congr
    exact fun cursor => (query_toOption filter cursor).symm
  · intro unreadOnly
    have served := enumerates (inboxPage tenantId userId unreadOnly) tables.notifications reader
      positive
    apply served.congr
    exact fun cursor => (inbox_toOption unreadOnly cursor).symm
  · intro t id
    obtain ⟨cursor, encoded, decoded⟩ := decodeCursor_encodeCursor reader t id
    exact ⟨cursor, _, encoded, decoded, cursorKey_writtenCursor reader t id⟩

def epoch : DateTime :=
  ⟨1970, 1, 1, 0, 0, 0, 0, by decide, by decide, by decide, by decide⟩

/-- A user with one conversation, of two messages at the same time. -/
def smallTables : Tables where
  conversations := ⟨[⟨2, 0, 1, epoch, none, none⟩], by decide⟩
  messages := ⟨[⟨4, 0, 2, epoch⟩, ⟨3, 0, 2, epoch⟩], by decide⟩
  auditLogs := ⟨[], by decide⟩
  notifications := ⟨[], by decide⟩

/-- A Python that reads only what it has written. -/
def plainReader : CursorReader where
  depth := 9
  repr := fun _ => none
  otherDatetime := fun _ => none
  otherUuid := fun _ => none

theorem pagination_complete_small :
  (Enumerates (pageForUser 0 1) smallTables.conversations fun cursor =>
    (listForUser smallTables plainReader 0 1 1 cursor).result) ∧
  Enumerates (pageForConversation 0 2) smallTables.messages fun cursor =>
    (listMessages smallTables plainReader 0 1 1 2 cursor).result
  := by
  have complete := pagination_complete smallTables plainReader 0 1 (by decide : 1 ≤ 1)
  refine ⟨complete.1, complete.2.1 2 ?_⟩
  exact ⟨_, List.mem_singleton_self _, rfl, rfl, rfl, rfl⟩

/-! ### Malformed cursors -/

namespace CursorReader

variable (reader : CursorReader)

/-- No time and identifier can be decoded from the text. -/
def Malformed (cursor : List Char) : Prop :=
  ∀ members key, reader.decodeCursor cursor = .ok members → reader.cursorKey members ≠ .ok key

/-- The text is not that of a JSON object, and not nested too deeply. -/
def HoldsNoObject (cursor : List Char) : Prop :=
  reader.payload cursor ≠ .error .recursionError ∧
    ∀ members, reader.payload cursor ≠ .ok (.dict members)

end CursorReader

/-- The call raises the error for invalid input, and asks for no page. -/
def Rejected {β : Type} (served : Served β) : Prop :=
  served.result = .error invalidCursor ∧ ∀ key, .page key ∉ served.queries

theorem decodeCursor_of_holdsNoObject {cursor : List Char} (h : reader.HoldsNoObject cursor) :
  reader.decodeCursor cursor = .error cursorError
  := by
  obtain ⟨shallow, noObject⟩ := h
  unfold CursorReader.decodeCursor
  match read : reader.payload cursor with
  | .error .valueError => rfl
  | .error .recursionError => exact absurd read shallow
  | .ok (.dict members) => exact absurd read (noObject members)
  | .ok .none | .ok (.bool _) | .ok (.int _) | .ok (.float _) | .ok (.str _) | .ok (.list _) => rfl

/-- What is not in a dictionary is a `CursorError`, unless it is nested too deeply. -/
theorem cursorKey_error {members : List (Str × Value)} {e : Exn}
    (h : reader.cursorKey members = .error e) :
  e = cursorError ∨ e = recursionError
  := by
  have missing {α : Type} {e' : Exn} {a : Option α} (h : orRaise e' a = .error e) : e = e' :=
    (error_of_orRaise h).2
  have shown {v : Value} (h : reader.shown v = .error e) : e = recursionError := by
    cases v with
    | str s => cases h
    | _ => exact missing h
  rcases error_of_bind h with h | ⟨k, _, h⟩
  · exact .inl (missing h)
  rcases error_of_bind h with h | ⟨t, _, h⟩
  · exact .inr (shown h)
  rcases error_of_bind h with h | ⟨t, _, h⟩
  · exact .inl (missing h)
  rcases error_of_bind h with h | ⟨id, _, h⟩
  · exact .inl (missing h)
  rcases error_of_bind h with h | ⟨id, _, h⟩
  · exact .inr (shown h)
  rcases error_of_bind h with h | ⟨id, _, h⟩
  · exact .inl (missing h)
  · cases h

theorem of_not_holdsNoObject {cursor : List Char} (h : ¬ reader.HoldsNoObject cursor) :
  reader.payload cursor = .error .recursionError ∨
    ∃ members, reader.payload cursor = .ok (.dict members)
  := by
  by_contra neither
  exact h ⟨fun deep => neither (.inl deep), fun members object => neither (.inr ⟨members, object⟩)⟩

section

variable {cursor : List Char}

theorem keyFor_of_holdsNoObject (h : reader.HoldsNoObject cursor) :
  reader.keyFor (some cursor) = .error invalidCursor
  := by
  rw [CursorReader.keyFor, CursorReader.decode, decodeCursor_of_holdsNoObject h]
  rfl

/-- The errors that `_decode` does not turn. -/
theorem CursorReader.Malformed.keyFor (malformed : reader.Malformed cursor)
    (h : ¬ reader.HoldsNoObject cursor) :
  ∃ e, (e = cursorError ∨ e = recursionError) ∧ reader.keyFor (some cursor) = .error e
  := by
  rcases of_not_holdsNoObject h with read | ⟨members, read⟩
  · have decoded : reader.decodeCursor cursor = .error recursionError := by
      rw [CursorReader.decodeCursor, read]
    refine ⟨recursionError, .inr rfl, ?_⟩
    rw [CursorReader.keyFor, CursorReader.decode, decoded]
    rfl
  · have decoded : reader.decodeCursor cursor = .ok members := by
      rw [CursorReader.decodeCursor, read]
    cases key : reader.cursorKey members with
    | ok key' => exact absurd key (malformed members key' decoded)
    | error e =>
      refine ⟨e, cursorKey_error key, ?_⟩
      rw [CursorReader.keyFor, CursorReader.decode, decoded]
      change (reader.cursorKey members).map some = _
      rw [key]
      rfl

/-- A malformed cursor has no key. -/
theorem CursorReader.Malformed.keyFor_error (malformed : reader.Malformed cursor) :
  ∃ e, reader.keyFor (some cursor) = .error e
  := by
  by_cases h : reader.HoldsNoObject cursor
  · exact ⟨_, keyFor_of_holdsNoObject h⟩
  · obtain ⟨e, _, key⟩ := malformed.keyFor h
    exact ⟨e, key⟩

variable {α : Type} (l : Listing α) (rows : List α)

theorem serve_of_error {e : Exn} (h : reader.keyFor (some cursor) = .error e) :
  l.serve reader rows limit (some cursor) = ⟨[], .error e⟩
  := by
  rw [Listing.serve, Listing.rowsFor_eq, h]
  rfl

/-- For a malformed cursor no page is asked for. -/
theorem CursorReader.Malformed.serve_queries (malformed : reader.Malformed cursor) :
  (l.serve reader rows limit (some cursor)).queries = []
  := by
  obtain ⟨e, key⟩ := malformed.keyFor_error
  rw [serve_of_error l rows key]

/-- A malformed cursor is rejected by the page of a service where it holds no object. -/
theorem CursorReader.Malformed.serve_result (malformed : reader.Malformed cursor) :
  (l.serve reader rows limit (some cursor)).result = .error invalidCursor ↔
    reader.HoldsNoObject cursor
  := by
  constructor
  · intro rejected
    by_contra h
    obtain ⟨e, untranslated, key⟩ := malformed.keyFor h
    rw [serve_of_error l rows key] at rejected
    have same : e = invalidCursor := Except.error.inj rejected
    rcases untranslated with rfl | rfl
    · cases same
    · cases same
  · intro h
    rw [serve_of_error l rows (keyFor_of_holdsNoObject h)]

/-- Around the whole query, the error for a malformed cursor is turned, unless it is for too deep a
nesting. -/
theorem CursorReader.Malformed.translated (malformed : reader.Malformed cursor) :
  ∃ e, reader.keyFor (some cursor) = .error e ∧
    (Common.translated e = invalidCursor ∨ Common.translated e = recursionError)
  := by
  by_cases h : reader.HoldsNoObject cursor
  · exact ⟨_, keyFor_of_holdsNoObject h, .inl (by decide)⟩
  · obtain ⟨e, untranslated, key⟩ := malformed.keyFor h
    refine ⟨e, key, ?_⟩
    rcases untranslated with rfl | rfl
    · exact .inl (by decide)
    · exact .inr (by decide)

/-- The audit log and the inbox reject every malformed cursor that is not nested too deeply. -/
theorem CursorReader.Malformed.rejected_elsewhere (malformed : reader.Malformed cursor)
    (filter : AuditFilter) (unreadOnly : Bool) :
  (Rejected (query tables reader tenantId limit filter (some cursor)) ∨
    (query tables reader tenantId limit filter (some cursor)).result = .error recursionError) ∧
  (Rejected (inbox tables reader tenantId userId limit unreadOnly (some cursor)) ∨
    (inbox tables reader tenantId userId limit unreadOnly (some cursor)).result =
      .error recursionError)
  := by
  obtain ⟨e, key, turned⟩ := malformed.translated
  have queried : query tables reader tenantId limit filter (some cursor) =
      ⟨[], .error (Common.translated e)⟩ := by
    rw [query, Listing.rowsFor_eq, key]
    rfl
  have listed : inbox tables reader tenantId userId limit unreadOnly (some cursor) =
      ⟨[], .error (Common.translated e)⟩ := by
    rw [inbox, Listing.rowsFor_eq, key]
    rfl
  rw [queried, listed]
  rcases turned with turned | turned
  · rw [turned]
    exact ⟨.inl ⟨rfl, nofun⟩, .inl ⟨rfl, nofun⟩⟩
  · rw [turned]
    exact ⟨.inr rfl, .inr rfl⟩

end

/-- A malformed cursor is rejected by the listings of `ConversationService` exactly where it holds
no JSON object, and no page is asked for in any case. -/
theorem malformed_rejected_iff (tables : Tables) (reader : CursorReader) (tenantId userId : Uuid)
    (limit : ℕ) {cursor : List Char} (malformed : reader.Malformed cursor) :
  (Rejected (listForUser tables reader tenantId userId limit (some cursor)) ↔
    reader.HoldsNoObject cursor) ∧
  (∀ conversationId,
    (Rejected (listMessages tables reader tenantId userId limit conversationId (some cursor)) ↔
      IsOwn tables tenantId userId conversationId ∧ reader.HoldsNoObject cursor)) ∧
  (∀ key, .page key ∉ (listForUser tables reader tenantId userId limit (some cursor)).queries) ∧
  ∀ conversationId key,
    .page key ∉
      (listMessages tables reader tenantId userId limit conversationId (some cursor)).queries
  := by
  have noPage (key : Option PageKey) :
      .page key ∉ (listForUser tables reader tenantId userId limit (some cursor)).queries := by
    rw [listForUser, malformed.serve_queries]
    nofun
  have noPage' (conversationId : Uuid) (key : Option PageKey) : .page key ∉
      (listMessages tables reader tenantId userId limit conversationId (some cursor)).queries := by
    intro asked
    rcases Served.mem_bind_queries asked with asked | ⟨row, _, asked⟩
    · rw [requireOwn_queries, List.mem_singleton] at asked
      cases asked
    · rw [malformed.serve_queries] at asked
      cases asked
  refine ⟨?_, ?_, noPage, noPage'⟩
  · rw [Rejected, listForUser, malformed.serve_result]
    exact and_iff_left noPage
  · intro conversationId
    rw [Rejected, and_iff_left (noPage' conversationId)]
    by_cases own : IsOwn tables tenantId userId conversationId
    · rw [listMessages_of_isOwn own, malformed.serve_result]
      exact (and_iff_right own).symm
    · have foreign := requireOwn_of_not_isOwn own
      rw [listMessages, Served.bind_result, foreign]
      constructor
      · nofun
      · exact fun h => absurd h.1 own

/-- `{}`, in base64. -/
def emptyObject : List Char :=
  ['e', '3', '0']

theorem emptyObject_malformed :
  plainReader.Malformed emptyObject
  := by
  have decoded : plainReader.decodeCursor emptyObject = .ok [] := by rfl
  intro members key same
  rw [decoded] at same
  cases same
  nofun

theorem malformed_rejected_iff_emptyObject :
  ¬ Rejected (listForUser smallTables plainReader 0 1 1 (some emptyObject))
  := by
  have rejected := malformed_rejected_iff smallTables plainReader 0 1 1 emptyObject_malformed
  rw [rejected.1]
  intro holds
  exact holds.2 [] rfl

/-- An object without members is not rejected. -/
theorem malformed_not_rejected :
  ¬ ∀ (tables : Tables) (reader : CursorReader) (tenantId userId : Uuid) (limit : ℕ) cursor,
    reader.Malformed cursor →
      Rejected (listForUser tables reader tenantId userId limit (some cursor))
  := by
  intro claim
  have rejected := claim smallTables plainReader 0 1 1 emptyObject emptyObject_malformed
  have escapes : (listForUser smallTables plainReader 0 1 1 (some emptyObject)).result =
      .error cursorError := by rfl
  have same := rejected.1.symm.trans escapes
  cases same

end Lumina.Common
