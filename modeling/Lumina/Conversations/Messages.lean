import Lumina.Chat.Turn
import Lumina.Library.Paging
import Mathlib.Data.Prod.Lex

/-!
# The messages of a conversation

The pages in which the messages of a conversation are listed, in the order of time.
-/

namespace Lumina.Conversations

open Chat (MessageStatus Citation Usage)
open Paging

inductive Role where
  | system
  | user
  | assistant
  | tool
deriving DecidableEq, Repr

/-- A row of the messages. -/
structure Message where
  id : ℕ
  conversationId : ℕ
  createdAt : ℕ
  role : Role
  content : String
  citations : List Citation := []
  model : String := ""
  status : MessageStatus := .completed
  usage : Option Usage := none
deriving DecidableEq

/-- `MessageView`, which the endpoint returns as it is. -/
structure MessageView where
  id : ℕ
  role : Role
  content : String
  citations : List Citation
  model : String
  status : MessageStatus
  usage : Option Usage
  createdAt : ℕ
deriving DecidableEq

def messageView (message : Message) : MessageView where
  id := message.id
  role := message.role
  content := message.content
  citations := message.citations
  model := message.model
  status := message.status
  usage := message.usage
  createdAt := message.createdAt

structure Page (α κ : Type) where
  items : List α
  nextCursor : Option κ

/-- `split_page`, of the rows of which there is one more than the limit if there is a next page. -/
def splitPage {α κ : Type} (rows : List α) (limit : ℕ) (cursorOf : α → κ) : Page α κ :=
  if rows.length ≤ limit then ⟨rows, none⟩
  else
    let page := rows.take limit
    ⟨page, page.getLast?.map cursorOf⟩

/-- `order_by("created_at", "id")`. -/
def Message.key (message : Message) : ℕ ×ₗ ℕ :=
  toLex (message.createdAt, message.id)

/-- `MessageRepository.page_for_conversation`. -/
def pageForConversation (messages : List Message) (conversationId limit : ℕ)
    (cursor : Option (ℕ ×ₗ ℕ)) : Page Message (ℕ ×ₗ ℕ) :=
  let rows := messages.filter fun message => message.conversationId = conversationId
  let rows := cursor.elim rows fun key => rows.filter fun message => decide (key < message.key)
  splitPage ((sorted Message.key rows).take (limit + 1)) limit Message.key

def defaultPageSize : ℕ := 20

structure Conversation where
  id : ℕ
  userId : ℕ
  deleted : Bool := false

/-- `_require_own`. -/
def requireOwn (conversations : List Conversation) (userId conversationId : ℕ) :
    Except ErrorCode Conversation :=
  match conversations.find? fun c => c.id = conversationId && !c.deleted with
  | some conversation =>
      if conversation.userId = userId then .ok conversation else .error .resourceNotFound
  | none => .error .resourceNotFound

/-- `ConversationService.list_messages`. -/
def listMessages (conversations : List Conversation) (messages : List Message)
    (userId conversationId : ℕ) (limit : ℕ := defaultPageSize)
    (cursor : Option (ℕ ×ₗ ℕ) := none) : Except ErrorCode (Page MessageView (ℕ ×ₗ ℕ)) := do
  let _ ← requireOwn conversations userId conversationId
  let page := pageForConversation messages conversationId limit cursor
  return ⟨page.items.map messageView, page.nextCursor⟩

/-! ### The first page -/

theorem splitPage_items {α κ : Type} (rows : List α) (limit : ℕ) (cursorOf : α → κ) :
  (splitPage (rows.take (limit + 1)) limit cursorOf).items = rows.take limit
  := by
  unfold splitPage
  have shorter : (rows.take (limit + 1)).take limit = rows.take limit := by
    rw [List.take_take, min_eq_left (Nat.le_succ limit)]
  split_ifs with fits
  · rw [← shorter]
    exact (List.take_of_length_le fits).symm
  · exact shorter

/-- The messages of a conversation, in any order. -/
def messagesOf (messages : List Message) (conversationId : ℕ) : List Message :=
  messages.filter fun message => message.conversationId = conversationId

theorem pageForConversation_items (messages : List Message) (conversationId limit : ℕ) :
  (pageForConversation messages conversationId limit none).items =
    (sorted Message.key (messagesOf messages conversationId)).take limit
  := splitPage_items _ limit Message.key

theorem listMessages_items {conversations : List Conversation} {messages : List Message}
    {userId conversationId limit : ℕ} {page : Page MessageView (ℕ ×ₗ ℕ)}
    (h : listMessages conversations messages userId conversationId limit = .ok page) :
  page.items = ((sorted Message.key (messagesOf messages conversationId)).take limit).map messageView
  := by
  unfold listMessages at h
  cases own : requireOwn conversations userId conversationId with
  | error e =>
    rw [own] at h
    cases h
  | ok _ =>
    rw [own] at h
    cases h
    rw [← pageForConversation_items]

/-- The keys of messages with distinct identifiers are distinct. -/
theorem nodup_key_messagesOf {messages : List Message} (unique : (messages.map (·.id)).Nodup)
    (conversationId : ℕ) :
  ((messagesOf messages conversationId).map Message.key).Nodup
  := by
  have distinct : (messages.map Message.key).Nodup := by
    apply List.Nodup.of_map fun key : ℕ ×ₗ ℕ => (ofLex key).2
    rw [List.map_map]
    exact unique
  exact distinct.sublist (List.filter_sublist.map Message.key)

theorem messageView_inj {messages : List Message} (unique : (messages.map (·.id)).Nodup)
    {a b : Message} (ha : a ∈ messages) (hb : b ∈ messages) (h : messageView a = messageView b) :
  a = b
  := List.inj_on_of_nodup_map unique ha hb (congrArg MessageView.id h)

end Lumina.Conversations
