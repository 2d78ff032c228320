import Lumina.Frontend.ChatStore

/-!
# A finished answer is shown

When an answer is finished, and when a conversation is opened, the store asks for one page of the
messages.  That is the oldest page, so that an answer is in it only as long as the conversation is
short.
-/

namespace Lumina.Frontend

open Chat (MessageStatus Citation Usage)
open Conversations
open Paging

/-! ### What happens meanwhile -/

/-- What happens to the store. -/
inductive StoreAction where
  /-- A conversation is opened, or an answer of it is finished. -/
  | fetch (conversationId : ℕ)
  | fetched (requestId : ℕ) (items : List MessageView)
  | sent (conversationId : ℕ) (content : String) (turn : TurnStartedOut) (now : ℕ)
  | resume (messageId conversationId : ℕ)
  | delta (messageId : ℕ) (text : String)
  | citations (messageId : ℕ) (items : List Citation)
  | usage (messageId : ℕ) (usage : Option Usage)
  | fail (messageId : ℕ) (error : StreamError)
  | stop
  | finished (messageId : ℕ)
  | deleted (conversationId : ℕ)
  /-- The page for a new conversation is opened. -/
  | leave

namespace StoreAction

def apply : StoreAction → ChatState → ChatState
  | fetch c, s => s.fetchMessages c
  | fetched r items, s => s.fetchedMessages r items
  | sent c content turn now, s => s.sentMessage c content turn now
  | resume m c, s => s.beginStreaming m c
  | delta m text, s => s.appendDelta m text
  | citations m items, s => s.applyCitations m items
  | usage m u, s => s.applyUsage m u
  | fail m e, s => s.failStreaming m e
  | stop, s => s.stopStreaming
  | finished m, s => s.finishedStreaming m
  | deleted c, s => s.deletedConversation c
  | leave, s => { s with currentConversationId := none, messages := [] }

/-- The user stays on a conversation of which a page is awaited: neither that one nor another one is
opened, and it is not deleted.  The page that is awaited comes only once. -/
def Stays (conversationId requestId : ℕ) : StoreAction → Prop
  | fetch _ => False
  | fetched r _ => r ≠ requestId
  | deleted c => c ≠ conversationId
  | leave => False
  | _ => True

end StoreAction

namespace ChatState

/-- What happens to the store, one after another. -/
def after (s : ChatState) (during : List StoreAction) : ChatState :=
  during.foldl (fun s a => a.apply s) s

/-- `finishStreaming`, with what happens until it has the page. -/
def finishing (s : ChatState) (messageId : ℕ) (during : List StoreAction)
    (items : List MessageView) : ChatState :=
  match s.finishStreaming messageId with
  | (s, none) => s
  | (s, some _) =>
      ((s.after during).fetchedMessages s.messagesRequestId items).finishedStreaming messageId

/-- `fetchMessages`, with what happens until it has the page. -/
def opening (s : ChatState) (conversationId : ℕ) (during : List StoreAction)
    (items : List MessageView) : ChatState :=
  let s := s.fetchMessages conversationId
  (s.after during).fetchedMessages s.messagesRequestId items

/-! ### The page that is awaited is the last one -/

@[simp]
theorem updateBuffer_messagesRequestId (s : ChatState) (m : ℕ)
    (f : StreamingMessage → StreamingMessage) :
  (s.updateBuffer m f).messagesRequestId = s.messagesRequestId
  := by
  unfold updateBuffer
  split
  · rfl
  · rfl

@[simp]
theorem finishedStreaming_messagesRequestId (s : ChatState) (m : ℕ) :
  (s.finishedStreaming m).messagesRequestId = s.messagesRequestId
  := by
  unfold finishedStreaming
  split_ifs
  · rfl
  · rfl

@[simp]
theorem finishedStreaming_messages (s : ChatState) (m : ℕ) :
  (s.finishedStreaming m).messages = s.messages
  := by
  unfold finishedStreaming
  split_ifs
  · rfl
  · rfl

/-- Only a fetch takes a new number. -/
theorem apply_messagesRequestId {c r : ℕ} {a : StoreAction} (stays : a.Stays c r)
    (s : ChatState) :
  (a.apply s).messagesRequestId = s.messagesRequestId
  := by
  cases a with
  | fetch _ => exact stays.elim
  | leave => exact stays.elim
  | fetched r' items =>
    simp only [StoreAction.apply, fetchedMessages]
    split_ifs
    · rfl
    · rfl
  | sent c' content turn now =>
    simp only [StoreAction.apply, sentMessage, beginStreaming]
    split_ifs
    · rfl
    · rfl
  | resume _ _ => rfl
  | delta _ _ => exact updateBuffer_messagesRequestId ..
  | citations _ _ => exact updateBuffer_messagesRequestId ..
  | usage _ _ => exact updateBuffer_messagesRequestId ..
  | fail _ _ => exact updateBuffer_messagesRequestId ..
  | stop => rfl
  | finished _ => exact finishedStreaming_messagesRequestId ..
  | deleted c' =>
    simp only [StoreAction.apply, deletedConversation]
    split_ifs
    all_goals rfl

theorem after_messagesRequestId {c r : ℕ} {during : List StoreAction}
    (stays : ∀ a ∈ during, a.Stays c r) (s : ChatState) :
  (s.after during).messagesRequestId = s.messagesRequestId
  := by
  induction during generalizing s with
  | nil => rfl
  | cons a during ih =>
    obtain ⟨first, rest⟩ := List.forall_mem_cons.mp stays
    exact (ih rest (a.apply s)).trans (apply_messagesRequestId first s)

/-- As long as the user stays, the page that is awaited is taken. -/
theorem opening_messages {c : ℕ} {s : ChatState} {during : List StoreAction}
    (stays : ∀ a ∈ during, a.Stays c (s.messagesRequestId + 1)) (items : List MessageView) :
  (s.opening c during items).messages = items
  := by
  unfold opening fetchedMessages
  dsimp only
  rw [after_messagesRequestId stays, if_pos rfl]

theorem finishing_messages {m : ℕ} {s : ChatState} {b : StreamingMessage}
    (buffer : s.bufferFor m = some b) (here : s.currentConversationId = some b.conversationId)
    {during : List StoreAction}
    (stays : ∀ a ∈ during, a.Stays b.conversationId (s.messagesRequestId + 1))
    (items : List MessageView) :
  (s.finishing m during items).messages = items
  := by
  have begins : s.finishStreaming m =
      (s.fetchMessages b.conversationId, some b.conversationId) := by
    unfold finishStreaming
    rw [buffer]
    exact if_pos here
  unfold finishing
  rw [begins, finishedStreaming_messages]
  exact opening_messages stays items

end ChatState

/-! ### What is in the page -/

section

variable {conversations : List Conversation} {messages : List Message} {userId c : ℕ}
  {page : Page MessageView (ℕ ×ₗ ℕ)}

/-- A message is in the first page if it is one of the oldest. -/
theorem messageView_mem_items_iff (unique : (messages.map (·.id)).Nodup)
    (hpage : listMessages conversations messages userId c = .ok page) {message : Message}
    (mem : message ∈ messagesOf messages c) :
  messageView message ∈ page.items ↔
    preceding Message.key (messagesOf messages c) message < defaultPageSize
  := by
  rw [listMessages_items hpage, List.mem_map,
    ← mem_take_sorted_iff (nodup_key_messagesOf unique c) mem]
  constructor
  · rintro ⟨other, inside, same⟩
    have there := (mem_sorted Message.key).mp (List.mem_of_mem_take inside)
    obtain rfl := messageView_inj unique (List.mem_of_mem_filter there)
      (List.mem_of_mem_filter mem) same
    exact inside
  · intro inside
    exact ⟨message, inside, rfl⟩

/-- The message that is resumed is the first of the page that is unfinished. -/
theorem find?_unfinished_iff (unique : (messages.map (·.id)).Nodup)
    (hpage : listMessages conversations messages userId c = .ok page) {message : Message}
    (mem : message ∈ messagesOf messages c) (assistant : message.role = .assistant)
    (streaming : message.status = .streaming) :
  page.items.find? (fun item => item.role = .assistant && item.status = .streaming) =
      some (messageView message) ↔
    preceding Message.key (messagesOf messages c) message < defaultPageSize ∧
      ∀ other ∈ messagesOf messages c, other.role = .assistant → other.status = .streaming →
        ¬ other.key < message.key
  := by
  have first := find?_take_sorted_iff (nodup_key_messagesOf unique c)
    (p := fun item => item.role = .assistant && item.status = .streaming) mem
    (by simp [assistant, streaming]) defaultPageSize
  simp only [Bool.and_eq_true, decide_eq_true_eq, and_imp] at first
  rw [listMessages_items hpage, List.find?_map, ← first, Option.map_eq_some_iff]
  constructor
  · rintro ⟨other, found, same⟩
    have there := (mem_sorted Message.key).mp
      (List.mem_of_mem_take (List.mem_of_find?_eq_some found))
    obtain rfl := messageView_inj unique (List.mem_of_mem_filter there)
      (List.mem_of_mem_filter mem) same
    exact found
  · intro found
    exact ⟨message, found, rfl⟩

/-- A finished answer and its question are shown exactly if few messages precede them, and an answer
is resumed exactly if few messages precede it and no earlier one is unfinished. -/
theorem finished_answer_shown_iff (unique : (messages.map (·.id)).Nodup)
    (hpage : listMessages conversations messages userId c = .ok page) :
  (∀ answer ∈ messagesOf messages c, ∀ question ∈ messagesOf messages c,
      ∀ (s : ChatState) (b : StreamingMessage) (during : List StoreAction),
        s.bufferFor answer.id = some b → b.conversationId = c → s.currentConversationId = some c →
          (∀ a ∈ during, a.Stays c (s.messagesRequestId + 1)) →
            (messageView answer ∈ (s.finishing answer.id during page.items).messages ∧
                messageView question ∈ (s.finishing answer.id during page.items).messages ↔
              preceding Message.key (messagesOf messages c) answer < defaultPageSize ∧
                preceding Message.key (messagesOf messages c) question < defaultPageSize)) ∧
    (∀ last ∈ messagesOf messages c, last.role = .assistant → last.status = .streaming →
      ∀ (s : ChatState) (during : List StoreAction),
        (∀ a ∈ during, a.Stays c (s.messagesRequestId + 1)) →
          ((s.opening c during page.items).unfinished = some (messageView last) ↔
            preceding Message.key (messagesOf messages c) last < defaultPageSize ∧
              ∀ other ∈ messagesOf messages c, other.role = .assistant →
                other.status = .streaming → ¬ other.key < last.key))
  := by
  constructor
  · intro answer ha question hq s b during buffer own here stays
    subst own
    rw [ChatState.finishing_messages buffer here stays, messageView_mem_items_iff unique hpage ha,
      messageView_mem_items_iff unique hpage hq]
  · intro last hlast assistant streaming s during stays
    unfold ChatState.unfinished
    rw [ChatState.opening_messages stays]
    exact find?_unfinished_iff unique hpage hlast assistant streaming

end

/-- The messages of a conversation with so many turns; the last answer is unfinished. -/
def turns (n : ℕ) : List Message :=
  (List.range (2 * n)).map fun i =>
    { id := i
      conversationId := 0
      createdAt := i
      role := if i % 2 = 0 then .user else .assistant
      content := ""
      status := if i + 1 = 2 * n then .streaming else .completed }

/-- The store with the buffer of a message of the conversation. -/
def generating (messageId : ℕ) : ChatState where
  currentConversationId := some 0
  streaming := some { messageId, conversationId := 0 }

theorem finished_answer_shown_iff_turn :
  (messageView (turns 1)[1] ∈ ((generating 1).finishing 1 []
        [messageView (turns 1)[0], messageView (turns 1)[1]]).messages ∧
      messageView (turns 1)[0] ∈ ((generating 1).finishing 1 []
        [messageView (turns 1)[0], messageView (turns 1)[1]]).messages) ∧
    ((generating 1).opening 0 [] [messageView (turns 1)[0], messageView (turns 1)[1]]).unfinished =
      some (messageView (turns 1)[1])
  := by
  have page : listMessages [⟨0, 0, false⟩] (turns 1) 0 0 =
      .ok ⟨[messageView (turns 1)[0], messageView (turns 1)[1]], none⟩ := by
    have inOrder : sorted Message.key (messagesOf (turns 1) 0) = turns 1 :=
      List.mergeSort_of_pairwise (by decide)
    have split : pageForConversation (turns 1) 0 defaultPageSize none =
        splitPage ((sorted Message.key (messagesOf (turns 1) 0)).take (defaultPageSize + 1))
          defaultPageSize Message.key := rfl
    unfold listMessages
    rw [split, inOrder]
    rfl
  obtain ⟨finished, resumed⟩ := finished_answer_shown_iff (by decide) page
  constructor
  · apply (finished (turns 1)[1] (by decide) (turns 1)[0] (by decide) (generating 1)
      { messageId := 1, conversationId := 0 } [] rfl rfl rfl (List.forall_mem_nil _)).mpr
    decide
  · apply (resumed (turns 1)[1] (by decide) rfl rfl (generating 1) []
      (List.forall_mem_nil _)).mpr
    decide

/-- With eleven turns the last answer is not shown when it is finished. -/
theorem not_finished_answer_shown :
  ¬ ∀ (conversations : List Conversation) (messages : List Message) (userId c : ℕ)
      (page : Page MessageView (ℕ ×ₗ ℕ)),
    (messages.map (·.id)).Nodup → listMessages conversations messages userId c = .ok page →
      ∀ answer ∈ messagesOf messages c, ∀ (s : ChatState) (b : StreamingMessage),
        s.bufferFor answer.id = some b → b.conversationId = c → s.currentConversationId = some c →
          messageView answer ∈ (s.finishing answer.id [] page.items).messages
  := by
  intro shown
  have own : ∃ page, listMessages [⟨0, 0, false⟩] (turns 11) 0 0 = .ok page := ⟨_, rfl⟩
  obtain ⟨page, hpage⟩ := own
  have unique : ((turns 11).map (·.id)).Nodup := by decide
  have mem : (turns 11)[21] ∈ messagesOf (turns 11) 0 := by decide
  have inside := shown _ _ _ _ page unique hpage (turns 11)[21] mem (generating 21)
    { messageId := 21, conversationId := 0 } rfl rfl rfl
  rw [ChatState.finishing_messages rfl rfl (List.forall_mem_nil _), messageView_mem_items_iff unique hpage mem]
    at inside
  revert inside
  decide

end Lumina.Frontend
