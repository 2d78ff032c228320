import Lumina.Common.Cursors
import Lumina.Library.Keyset
import Mathlib.Data.Prod.Lex

/-!
# Listings by pages

Four listings are paginated by cursors: the conversations of a user, the audit log and the inbox,
the newest rows first, and the messages of a conversation, the oldest first.  Each of them sorts by
a time and then by the identifier, and asks for one row more than a page has.

If the rows do not change, the pages that follow one another have each row of the listing once, in
its order.
-/

namespace Lumina.Common

open IsoText (DateTime Uuid)
open Knowledge (Exn)
open PyJson (Str Value)

/-! ### Pages -/

/-- What a listing filters by, what it sorts by, and in which direction. -/
structure Listing (α : Type) where
  visible : α → Bool
  sortKey : α → DateTime
  id : α → Uuid
  descending : Bool

abbrev PageKey := DateTime × Uuid

/-- What has been asked of the database. -/
inductive Query where
  | byId (id : Uuid)
  | page (key : Option PageKey)
  | unreadCount

/-- The queries of a call, and what it returns or raises. -/
structure Served (β : Type) where
  queries : List Query
  result : Except Exn β

namespace Served

variable {β γ : Type}

def bind (s : Served β) (f : β → Served γ) : Served γ :=
  match s.result with
  | .error e => ⟨s.queries, .error e⟩
  | .ok b => ⟨s.queries ++ (f b).queries, (f b).result⟩

instance : Monad Served where
  pure b := ⟨[], .ok b⟩
  bind := bind

instance : MonadLift (Except Exn) Served where
  monadLift result := ⟨[], result⟩

/-- What an exception handler around a call makes of its errors. -/
def mapError (f : Exn → Exn) (s : Served β) : Served β :=
  ⟨s.queries, s.result.mapError f⟩

@[simp]
theorem pure_result (b : β) :
  (pure b : Served β).result = .ok b
  := rfl

@[simp]
theorem lift_result (result : Except Exn β) :
  (liftM result : Served β).result = result
  := rfl

@[simp]
theorem bind_result (s : Served β) (f : β → Served γ) :
  (s >>= f).result = s.result.bind fun b => (f b).result
  := by
  change (s.bind f).result = _
  unfold bind
  cases s.result with
  | error e => rfl
  | ok b => rfl

/-- What is asked, is asked by the first call or by the one that follows. -/
theorem mem_bind_queries {s : Served β} {f : β → Served γ} {q : Query}
    (h : q ∈ (s >>= f).queries) :
  q ∈ s.queries ∨ ∃ b, s.result = .ok b ∧ q ∈ (f b).queries
  := by
  change q ∈ (s.bind f).queries at h
  unfold bind at h
  cases result : s.result with
  | error e =>
    rw [result] at h
    exact .inl h
  | ok b =>
    rw [result] at h
    exact (List.mem_append.mp h).imp_right fun h => ⟨b, rfl, h⟩

@[simp]
theorem lift_error_bind (e : Exn) (f : β → Served γ) :
  liftM (.error e : Except Exn β) >>= f = ⟨[], .error e⟩
  := rfl

@[simp]
theorem lift_ok_bind (b : β) (f : β → Served γ) :
  liftM (.ok b : Except Exn β) >>= f = f b
  := rfl

end Served

/-- `split_page`. -/
def splitPage {α : Type} (rows : List α) (limit : ℕ) (cursorOf : α → CursorValues) :
    Except Exn (List α × Option CursorValues) :=
  if rows.length ≤ limit then .ok (rows, none)
  else
    match (rows.take limit).getLast? with
    | none => .error (.other "IndexError")
    | some last => .ok (rows.take limit, some (cursorOf last))

namespace Listing

variable {α : Type} (l : Listing α)

/-- The key of a row. -/
def keyOf (row : α) : PageKey :=
  (l.sortKey row, l.id row)

/-- `Q(k__lt=key) | Q(k=key, id__lt=last_id)`, or the same with `gt`. -/
def passes (key : PageKey) (row : α) : Bool :=
  if l.descending then
    l.sortKey row < key.1 || (l.sortKey row = key.1 && l.id row < key.2)
  else l.sortKey row > key.1 || (l.sortKey row = key.1 && l.id row > key.2)

/-- `order_by("-k", "-id")`, or the same without the signs. -/
def inOrder (a b : α) : Bool :=
  if l.descending then
    l.sortKey b < l.sortKey a || (l.sortKey b = l.sortKey a && l.id b ≤ l.id a)
  else l.sortKey a < l.sortKey b || (l.sortKey a = l.sortKey b && l.id a ≤ l.id b)

/-- The rows that a query finds. -/
def found (rows : List α) (limit : ℕ) (key : Option PageKey) : List α :=
  let visible := rows.filter l.visible
  let passing :=
    match key with
    | none => visible
    | some key => visible.filter (l.passes key)
  (passing.mergeSort l.inOrder).take (limit + 1)

/-- The methods `page_for_user`, `page_for_conversation`, `page` and `inbox` of the repositories. -/
def page (reader : CursorReader) (rows : List α) (limit : ℕ)
    (cursor : Option (List (Str × Value))) : Served (List α × Option CursorValues) := do
  let key ← (cursor.mapM reader.cursorKey : Except Exn (Option PageKey))
  ⟨[.page key],
    splitPage (l.found rows limit key) limit fun row => cursorOf (l.sortKey row) (l.id row)⟩

end Listing

def invalidCursor : Exn :=
  .domain { cls := .validationFailed, message := "游標不正確" }

/-- What `except CursorError` raises instead. -/
def translated (e : Exn) : Exn :=
  if e = cursorError then invalidCursor else e

/-- `_decode` of the services. -/
def CursorReader.decode (reader : CursorReader) :
    Option (List Char) → Except Exn (Option (List (Str × Value)))
  | none => .ok none
  | some cursor => ((reader.decodeCursor cursor).mapError translated).map some

/-- The key of a cursor. -/
def CursorReader.keyFor (reader : CursorReader) (cursor : Option (List Char)) :
    Except Exn (Option PageKey) :=
  (reader.decode cursor).bind fun members => members.mapM reader.cursorKey

structure CursorPage (α : Type) where
  items : List α
  nextCursor : Option (List Char)

/-- The page of what a repository returns. -/
def cursorPage {α : Type} : List α × Option CursorValues → Except Exn (CursorPage α)
  | (items, none) => .ok ⟨items, none⟩
  | (items, some nextKey) => (encodeCursor nextKey).map fun next => ⟨items, some next⟩

/-- The cursor is decoded, and the rows are found. -/
def Listing.rowsFor {α : Type} (l : Listing α) (reader : CursorReader) (rows : List α) (limit : ℕ)
    (cursor : Option (List Char)) : Served (List α × Option CursorValues) := do
  let cursor ← reader.decode cursor
  l.page reader rows limit cursor

/-- The rows are asked for once, unless there is no key. -/
theorem Listing.rowsFor_eq {α : Type} (l : Listing α) (reader : CursorReader) (rows : List α)
    (limit : ℕ) (cursor : Option (List Char)) :
  l.rowsFor reader rows limit cursor =
    liftM (reader.keyFor cursor) >>= fun key =>
      ⟨[.page key], splitPage (l.found rows limit key) limit
        fun row => cursorOf (l.sortKey row) (l.id row)⟩
  := by
  unfold Listing.rowsFor CursorReader.keyFor
  cases reader.decode cursor with
  | error e => rfl
  | ok members => rfl

/-- What the services do for a page, whose next cursor is encoded. -/
def Listing.serve {α : Type} (l : Listing α) (reader : CursorReader) (rows : List α) (limit : ℕ)
    (cursor : Option (List Char)) : Served (CursorPage α) := do
  let found ← l.rowsFor reader rows limit cursor
  cursorPage found

/-! ### The listings -/

structure ConversationRow where
  id : Uuid
  tenantId : Uuid
  userId : Uuid
  createdAt : DateTime
  lastMessageAt : Option DateTime
  deletedAt : Option DateTime

/-- `ConversationRepository.page_for_user`. -/
def pageForUser (tenantId userId : Uuid) : Listing ConversationRow where
  visible row := row.tenantId = tenantId && row.deletedAt.isNone && row.userId = userId
  sortKey row := row.lastMessageAt.getD row.createdAt
  id := ConversationRow.id
  descending := true

structure MessageRow where
  id : Uuid
  tenantId : Uuid
  conversationId : Uuid
  createdAt : DateTime

/-- `MessageRepository.page_for_conversation`. -/
def pageForConversation (tenantId conversationId : Uuid) : Listing MessageRow where
  visible row := row.tenantId = tenantId && row.conversationId = conversationId
  sortKey := MessageRow.createdAt
  id := MessageRow.id
  descending := false

structure AuditRow where
  id : Uuid
  tenantId : Uuid
  actorId : Option Uuid
  action : String
  resourceType : String
  resourceId : Option Uuid
  createdAt : DateTime

/-- The filters of the audit log. -/
structure AuditFilter where
  action : Option String := none
  resourceType : Option String := none
  resourceId : Option Uuid := none
  actorId : Option Uuid := none
  startTime : Option DateTime := none
  endTime : Option DateTime := none

/-- `AuditLogRepository.page`. -/
def auditPage (tenantId : Uuid) (filter : AuditFilter) : Listing AuditRow where
  visible row :=
    row.tenantId = tenantId &&
    filter.action.all (row.action = ·) &&
    filter.resourceType.all (row.resourceType = ·) &&
    filter.resourceId.all (row.resourceId = some ·) &&
    filter.actorId.all (row.actorId = some ·) &&
    filter.startTime.all (· ≤ row.createdAt) &&
    filter.endTime.all (row.createdAt < ·)
  sortKey := AuditRow.createdAt
  id := AuditRow.id
  descending := true

structure NotificationRow where
  id : Uuid
  tenantId : Uuid
  userId : Uuid
  readAt : Option DateTime
  updatedAt : DateTime

/-- `NotificationRepository.inbox`. -/
def inboxPage (tenantId userId : Uuid) (unreadOnly : Bool) : Listing NotificationRow where
  visible row :=
    row.tenantId = tenantId && row.userId = userId && (!unreadOnly || row.readAt.isNone)
  sortKey := NotificationRow.updatedAt
  id := NotificationRow.id
  descending := true

/-! ### The walk -/

/-- The rows of the pages from a cursor on, if some number of them is enough. -/
def walk {α : Type} (serve : Option (List Char) → Except Exn (CursorPage α)) :
    ℕ → Option (List Char) → Option (List α)
  | 0, _ => none
  | n + 1, cursor =>
      match serve cursor with
      | .error _ => none
      | .ok ⟨items, none⟩ => some items
      | .ok ⟨items, some next⟩ => (walk serve n (some next)).map (items ++ ·)

/-- The rows of a table, with different identifiers. -/
structure Rows (α : Type) (id : α → Uuid) where
  all : List α
  unique : (all.map id).Nodup

/-- The walk ends and goes through each row of the listing once, in its order. -/
def Enumerates {α : Type} (l : Listing α) (rows : Rows α l.id)
    (serve : Option (List Char) → Except Exn (CursorPage α)) : Prop :=
  ∃ items, (∀ n > rows.all.length, walk serve n none = some items) ∧
    items.Perm (rows.all.filter l.visible) ∧
    items.Pairwise fun a b => l.inOrder a b = true ∧ l.inOrder b a = false

/-! ### The order of the keys -/

section

variable {α κ : Type} [LinearOrder κ]

/-- The filter and the sort of a listing are those of an order of the keys. -/
structure Agrees (l : Listing α) (toKey : PageKey → κ) : Prop where
  passes : ∀ key row, l.passes key row = decide (toKey key < toKey (l.keyOf row))
  inOrder : ∀ a b, l.inOrder a b = decide (toKey (l.keyOf a) ≤ toKey (l.keyOf b))
  injective : Function.Injective toKey

theorem agrees_ascending {l : Listing α} (h : l.descending = false) :
  Agrees l toLex
  where
  passes key row := by
    unfold Listing.passes Listing.keyOf
    rw [h]
    simp [Prod.Lex.lt_iff, eq_comm]
  inOrder a b := by
    unfold Listing.inOrder Listing.keyOf
    rw [h]
    simp [Prod.Lex.le_iff]
  injective := toLex.injective

theorem agrees_descending {l : Listing α} (h : l.descending = true) :
  Agrees l fun key => OrderDual.toDual (toLex key)
  where
  passes key row := by
    unfold Listing.passes Listing.keyOf
    rw [h]
    simp [Prod.Lex.lt_iff]
  inOrder a b := by
    unfold Listing.inOrder Listing.keyOf
    rw [h]
    simp [Prod.Lex.le_iff]
  injective := OrderDual.toDual.injective.comp toLex.injective

variable {l : Listing α} {toKey : PageKey → κ}

/-- The rows that a query finds are the first ones after its key. -/
theorem Agrees.found (h : Agrees l toKey) (rows : List α) (limit : ℕ) (key : Option PageKey) :
  l.found rows limit key =
    (Paging.sorted (toKey ∘ l.keyOf)
      (Keyset.after (toKey ∘ l.keyOf) (key.map toKey) (rows.filter l.visible))).take (limit + 1)
  := by
  have order : l.inOrder = fun a b => decide ((toKey ∘ l.keyOf) a ≤ (toKey ∘ l.keyOf) b) := by
    funext a b
    exact h.inOrder a b
  cases key with
  | none =>
    rw [Listing.found, order]
    rfl
  | some key =>
    have passes : l.passes key = fun row => decide (toKey key < (toKey ∘ l.keyOf) row) := by
      funext row
      exact h.passes key row
    rw [Listing.found, order, passes]
    rfl

variable (reader : CursorReader)

/-- The text is the cursor of a key, or both are absent. -/
def Represents : Option (List Char) → Option PageKey → Prop
  | none, none => True
  | some cursor, some key =>
      ∃ members, reader.decodeCursor cursor = .ok members ∧ reader.cursorKey members = .ok key
  | _, _ => False

theorem represents_encoded (key : PageKey) :
  ∃ cursor, encodeCursor (cursorOf key.1 key.2) = .ok cursor ∧
    Represents reader (some cursor) (some key)
  := by
  obtain ⟨cursor, encoded, decoded⟩ := decodeCursor_encodeCursor reader key.1 key.2
  exact ⟨cursor, encoded, _, decoded, cursorKey_writtenCursor reader key.1 key.2⟩

/-- The key of a cursor is read from it. -/
theorem Represents.keyFor {cursor : Option (List Char)} {key : Option PageKey}
    (represents : Represents reader cursor key) :
  reader.keyFor cursor = .ok key
  := by
  match cursor, key with
  | none, none => rfl
  | some cursor, some key =>
    obtain ⟨members, decoded, read⟩ := represents
    have decode : reader.decode (some cursor) = .ok (some members) := by
      rw [CursorReader.decode, decoded]
      rfl
    rw [CursorReader.keyFor, decode]
    change (reader.cursorKey members).map some = _
    rw [read]
    rfl

/-- A page is served for a cursor as it is for the key. -/
theorem serve_of_represents {cursor : Option (List Char)} {key : Option PageKey}
    (represents : Represents reader cursor key) (rows : List α) (limit : ℕ) :
  (l.serve reader rows limit cursor).result =
    (splitPage (l.found rows limit key) limit
      fun row => cursorOf (l.sortKey row) (l.id row)).bind cursorPage
  := by
  rw [Listing.serve, Served.bind_result, Listing.rowsFor_eq, represents.keyFor reader]
  rfl

/-- Serving a page is finding one by its key. -/
theorem Agrees.serve (h : Agrees l toKey) {cursor : Option (List Char)} {key : Option PageKey}
    (represents : Represents reader cursor key) (rows : List α) {limit : ℕ}
    (positive : 0 < limit) :
  ∃ items nextCursor nextKey,
    (l.serve reader rows limit cursor).result = .ok ⟨items, nextCursor⟩ ∧
    Represents reader nextCursor nextKey ∧
    Keyset.page (toKey ∘ l.keyOf) (rows.filter l.visible) limit (key.map toKey) =
      (items, nextKey.map toKey)
  := by
  rw [serve_of_represents reader represents, h.found, splitPage, Keyset.page]
  generalize (Paging.sorted (toKey ∘ l.keyOf) _).take (limit + 1) = found
  by_cases last : found.length ≤ limit
  · rw [if_pos last, if_pos last]
    exact ⟨found, none, none, rfl, trivial, rfl⟩
  · rw [if_neg last, if_neg last]
    obtain ⟨row, final⟩ : ∃ row, (found.take limit).getLast? = some row := by
      apply Option.ne_none_iff_exists'.mp
      intro none
      have empty := congrArg List.length (List.getLast?_eq_none_iff.mp none)
      rw [List.length_take, List.length_nil] at empty
      omega
    obtain ⟨next, encoded, represents⟩ := represents_encoded reader (l.keyOf row)
    rw [final]
    refine ⟨found.take limit, some next, some (l.keyOf row), ?_, represents, rfl⟩
    change (encodeCursor (cursorOf (l.keyOf row).1 (l.keyOf row).2)).map _ = _
    rw [encoded]
    rfl

/-- The walk by cursors is the walk by keys. -/
theorem Agrees.walk (h : Agrees l toKey) (rows : List α) {limit : ℕ} (positive : 0 < limit)
    (n : ℕ) {cursor : Option (List Char)} {key : Option PageKey}
    (represents : Represents reader cursor key) :
  Common.walk (fun cursor => (l.serve reader rows limit cursor).result) n cursor =
    Keyset.walk (Keyset.page (toKey ∘ l.keyOf) (rows.filter l.visible) limit) n (key.map toKey)
  := by
  induction n generalizing cursor key with
  | zero => rfl
  | succ n ih =>
    obtain ⟨items, nextCursor, nextKey, served, next, paged⟩ :=
      h.serve reader represents rows positive
    rw [Common.walk, Keyset.walk, served, paged]
    cases nextCursor with
    | none =>
      cases nextKey with
      | none => rfl
      | some => cases next
    | some nextCursor =>
      cases nextKey with
      | none => cases next
      | some nextKey =>
        dsimp only [Option.map_some]
        rw [ih next, Option.map_some]

/-- The keys of the rows of a listing differ. -/
theorem Agrees.nodup (h : Agrees l toKey) (rows : Rows α l.id) :
  ((rows.all.filter l.visible).map (toKey ∘ l.keyOf)).Nodup
  := by
  have distinct : (rows.all.map (toKey ∘ l.keyOf)).Nodup := by
    apply List.Nodup.map_on _ rows.unique.of_map
    intro a ha b hb same
    have key := h.injective same
    exact List.inj_on_of_nodup_map rows.unique ha hb (congrArg Prod.snd key)
  exact distinct.sublist (List.filter_sublist.map _)

/-- The listing by pages enumerates its rows. -/
theorem Agrees.enumerates (h : Agrees l toKey) (rows : Rows α l.id) {limit : ℕ}
    (positive : 0 < limit) :
  Enumerates l rows fun cursor => (l.serve reader rows.all limit cursor).result
  := by
  have unique := h.nodup rows
  have start : Represents reader none none := trivial
  refine ⟨Paging.sorted (toKey ∘ l.keyOf) (rows.all.filter l.visible), ?_, ?_, ?_⟩
  · intro n enough
    rw [h.walk reader rows.all positive n start]
    exact Keyset.walk_from unique positive none
      ((List.length_filter_le l.visible rows.all).trans_lt enough)
  · apply Paging.sorted_perm
  · apply (Paging.pairwise_sorted (toKey ∘ l.keyOf) unique).imp
    intro a b before
    rw [h.inOrder, h.inOrder, decide_eq_true_eq, decide_eq_false_iff_not]
    exact ⟨before.le, not_le.mpr before⟩

end

/-- Every listing by pages enumerates its rows, in either direction. -/
theorem enumerates {α : Type} (l : Listing α) (rows : Rows α l.id) (reader : CursorReader)
    {limit : ℕ} (positive : 0 < limit) :
  Enumerates l rows fun cursor => (l.serve reader rows.all limit cursor).result
  := by
  cases direction : l.descending with
  | true => exact (agrees_descending direction).enumerates reader rows positive
  | false => exact (agrees_ascending direction).enumerates reader rows positive

end Lumina.Common
