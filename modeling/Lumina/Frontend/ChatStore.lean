import Lumina.Conversations.Messages

/-!
# The chat store

The state of the chat store and what its functions do to it.  A function that awaits a response is
given by what it does before the request and what it does with the response.
-/

namespace Lumina.Frontend

open Chat (MessageStatus Citation Usage)
open Conversations (MessageView Role)

inductive StreamingStatus where
  | streaming
  | stopping
  | error
deriving DecidableEq

structure StreamError where
  code : String
  title : String
  retryable : Bool
deriving DecidableEq

/-- The answer that is being generated. -/
structure StreamingMessage where
  messageId : ℕ
  conversationId : ℕ
  text : String := ""
  citations : List Citation := []
  usage : Option Usage := none
  status : StreamingStatus := .streaming
  error : Option StreamError := none
deriving DecidableEq

structure ChatState where
  currentConversationId : Option ℕ := none
  messages : List MessageView := []
  streaming : Option StreamingMessage := none
  messagesRequestId : ℕ := 0
deriving DecidableEq

/-- `TurnStartedOut`. -/
structure TurnStartedOut where
  messageId : ℕ
  userMessageId : ℕ
deriving DecidableEq

namespace ChatState

/-! ### Messages -/

/-- `fetchMessages` until its request, which has the new number. -/
def fetchMessages (s : ChatState) (conversationId : ℕ) : ChatState :=
  { s with
    messagesRequestId := s.messagesRequestId + 1
    currentConversationId := some conversationId }

/-- The rest of `fetchMessages`, with the page of the response. -/
def fetchedMessages (s : ChatState) (requestId : ℕ) (items : List MessageView) : ChatState :=
  if requestId = s.messagesRequestId then { s with messages := items } else s

/-- `beginStreaming`. -/
def beginStreaming (s : ChatState) (messageId conversationId : ℕ) : ChatState :=
  { s with streaming := some { messageId, conversationId } }

/-- The message of the user as `sendMessage` shows it. -/
def sentView (turn : TurnStartedOut) (content : String) (now : ℕ) : MessageView where
  id := turn.userMessageId
  role := .user
  content := content
  citations := []
  model := ""
  status := .completed
  usage := none
  createdAt := now

/-- The rest of `sendMessage`, with the turn of the response. -/
def sentMessage (s : ChatState) (conversationId : ℕ) (content : String) (turn : TurnStartedOut)
    (now : ℕ) : ChatState :=
  let s :=
    if s.currentConversationId = some conversationId then
      { s with messages := s.messages ++ [sentView turn content now] }
    else s
  s.beginStreaming turn.messageId conversationId

/-- The rest of `deleteConversation`. -/
def deletedConversation (s : ChatState) (conversationId : ℕ) : ChatState :=
  let s :=
    if s.currentConversationId = some conversationId then
      { s with currentConversationId := none, messages := [] }
    else s
  if s.streaming.any fun b => b.conversationId = conversationId then { s with streaming := none }
  else s

/-! ### The answer that is being generated -/

/-- `bufferFor`. -/
def bufferFor (s : ChatState) (messageId : ℕ) : Option StreamingMessage :=
  s.streaming.filter fun b => b.messageId = messageId

/-- The buffer is updated if it is the one of the message. -/
def updateBuffer (s : ChatState) (messageId : ℕ) (f : StreamingMessage → StreamingMessage) :
    ChatState :=
  match s.bufferFor messageId with
  | some buffer => { s with streaming := some (f buffer) }
  | none => s

def appendDelta (s : ChatState) (messageId : ℕ) (text : String) : ChatState :=
  s.updateBuffer messageId fun b => { b with text := b.text ++ text }

def applyCitations (s : ChatState) (messageId : ℕ) (items : List Citation) : ChatState :=
  s.updateBuffer messageId fun b => { b with citations := items }

def applyUsage (s : ChatState) (messageId : ℕ) (usage : Option Usage) : ChatState :=
  s.updateBuffer messageId fun b => { b with usage := usage }

def failStreaming (s : ChatState) (messageId : ℕ) (error : StreamError) : ChatState :=
  s.updateBuffer messageId fun b => { b with status := .error, error := some error }

/-- `stopStreaming` until its request. -/
def stopStreaming (s : ChatState) : ChatState :=
  { s with streaming := s.streaming.map fun b =>
      if b.status = .streaming then { b with status := .stopping } else b }

/-- The end of `finishStreaming`. -/
def finishedStreaming (s : ChatState) (messageId : ℕ) : ChatState :=
  if (s.bufferFor messageId).isSome then { s with streaming := none } else s

/-- `finishStreaming` until its request, if it makes one, and the conversation that it asks for. -/
def finishStreaming (s : ChatState) (messageId : ℕ) : ChatState × Option ℕ :=
  match s.bufferFor messageId with
  | none => (s, none)
  | some buffer =>
      if s.currentConversationId = some buffer.conversationId then
        (s.fetchMessages buffer.conversationId, some buffer.conversationId)
      else (s.finishedStreaming messageId, none)

/-! ### Opening a conversation -/

/-- The message that `resumeUnfinished` resumes. -/
def unfinished (s : ChatState) : Option MessageView :=
  s.messages.find? fun item => item.role = .assistant && item.status = .streaming

end ChatState

end Lumina.Frontend
