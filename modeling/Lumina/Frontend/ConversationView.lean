import Lumina.Frontend.ChatStore
import Lumina.Library.Table
import Lumina.Library.Transition

/-!
# The page of a conversation

The tab of a user: the chat store, the mounts of `ConversationView` with their `useChatStream`, the
connections that are open, and what is awaited.  A step is what happens between two awaits: a
navigation, a click, a response, an event of a stream.  An `await nextTick()` is no pause, since
nothing but the rest of the same task runs in it.
-/

namespace Lumina.Frontend

open Chat (Citation Usage)
open Conversations (MessageView)
open Transition

/-- A mount of `ConversationView`; `runId` and `controller` are those of its `useChatStream`.  The
controller is kept when its connection has ended, since to abort it again does nothing. -/
structure View where
  mounted : Bool := true
  conversationId : Option ℕ
  selfNavigated : Bool := false
  runId : ℕ := 0
  controller : Option ℕ := none
deriving DecidableEq

/-- A call of `openEventStream`.  `deltas` is a ghost: the texts of the deltas that it has received
before it was aborted. -/
structure Connection where
  id : ℕ
  view : ℕ
  run : ℕ
  messageId : ℕ
  conversationId : ℕ
  aborted : Bool := false
  ended : Bool := false
  deltas : List String := []
deriving DecidableEq

/-- What is awaited. -/
inductive Task where
  /-- A conversation has been opened, and its messages are fetched. -/
  | opening (view conversationId requestId : ℕ)
  /-- `send` awaits a conversation. -/
  | creating (view : ℕ) (content : String)
  /-- `send` awaits the router. -/
  | pushing (view conversationId : ℕ) (content : String)
  /-- `send` awaits the turn. -/
  | sending (view conversationId : ℕ) (content : String)
  /-- `finishStreaming` awaits the messages. -/
  | finishing (connection messageId conversationId requestId : ℕ) (again : Bool)
deriving DecidableEq

inductive Response where
  | failed
  | messages (items : List MessageView)
  | created (conversationId : ℕ)
  | pushed (applied : Bool)
  | turn (turn : TurnStartedOut) (now : ℕ)

/-- An event of a stream, as `onEvent` distinguishes them. -/
inductive Event where
  | delta (text : String)
  | citations (items : List Citation)
  | usage (usage : Option Usage)
  | done
  | error (error : StreamError)
  | other

def Event.isTerminal : Event → Bool
  | .done | .error _ => true
  | _ => false

/-- What a connection keeps of an event. -/
def Connection.receive (event : Event) (k : Connection) : Connection :=
  { k with
    ended := k.ended || event.isTerminal
    deltas :=
      match event with
      | .delta text => if k.aborted then k.deltas else k.deltas ++ [text]
      | _ => k.deltas }

/-- The outcome of a connection without a terminal event. -/
inductive StreamOutcome where
  | aborted
  | resumeExpired
  | failed
deriving DecidableEq

/-- `DISCONNECTED`. -/
def disconnected : StreamError :=
  ⟨"STREAM_DISCONNECTED", "與伺服器的連線中斷", true⟩

structure Tab where
  store : ChatState := {}
  views : List View := []
  /-- The latest one first. -/
  connections : List Connection := []
  tasks : List Task := []

inductive TabAction where
  /-- The router goes to the page of a conversation, or to the one for a new conversation. -/
  | goTo (conversationId : Option ℕ)
  /-- The router goes to another page. -/
  | leave
  | send (content : String)
  | stop
  | deleted (conversationId : ℕ)
  | answer (i : ℕ) (response : Response)
  | event (connection : ℕ) (event : Event)
  | outcome (connection : ℕ) (outcome : StreamOutcome)

namespace Tab

def setStore (s : Tab) (store : ChatState) : Tab :=
  { s with store := store }

def await (s : Tab) (task : Task) : Tab :=
  { s with tasks := s.tasks ++ [task] }

/-! ### The stream -/

def abort (s : Tab) (controller : Option ℕ) : Tab :=
  { s with
    connections :=
      Table.update (fun k => decide (some k.id = controller)) (fun k => { k with aborted := true })
        s.connections }

/-- `start`. -/
def start (s : Tab) (v conversationId messageId : ℕ) : Option Tab := do
  let view ← s.views[v]?
  let s := s.abort view.controller
  let connection : Connection :=
    { id := s.connections.length, view := v, run := view.runId + 1, messageId, conversationId }
  some
    { s with
      views := s.views.set v
        { view with runId := view.runId + 1, controller := some connection.id }
      connections := connection :: s.connections }

/-- `ownRun === runId`. -/
def isCurrent (s : Tab) (k : Connection) : Bool :=
  s.views[k.view]?.any fun view => view.runId = k.run

/-- `finishStreaming` of the message of a connection. -/
def finish (s : Tab) (k : Connection) (again : Bool) : Tab :=
  match s.store.finishStreaming k.messageId with
  | (store, none) => s.setStore store
  | (store, some c) =>
      (s.setStore store).await (.finishing k.id k.messageId c store.messagesRequestId again)

/-- `onEvent`. -/
def onEvent (s : Tab) (k : Connection) (event : Event) : Tab :=
  if s.isCurrent k then
    match event with
    | .delta text => s.setStore (s.store.appendDelta k.messageId text)
    | .citations items => s.setStore (s.store.applyCitations k.messageId items)
    | .usage usage => s.setStore (s.store.applyUsage k.messageId usage)
    | .done => s.finish k false
    | .error error => s.setStore (s.store.failStreaming k.messageId error)
    | .other => s
  else s

def updateConnection (s : Tab) (id : ℕ) (f : Connection → Connection) : Tab :=
  { s with connections := Table.update (fun k => decide (k.id = id)) f s.connections }

def receive (s : Tab) (id : ℕ) (event : Event) : Option Tab := do
  let k ← s.connections.find? fun k => k.id = id
  if k.ended then none
  else some ((s.updateConnection id (Connection.receive event)).onEvent k event)

/-- The end of `start`, without a terminal event. -/
def conclude (s : Tab) (id : ℕ) (outcome : StreamOutcome) : Option Tab := do
  let k ← s.connections.find? fun k => k.id = id
  if k.ended then none
  else
    let s := s.updateConnection id fun k => { k with ended := true }
    if s.isCurrent k then
      match outcome with
      | .aborted => some s
      | .resumeExpired => some (s.finish k true)
      | .failed => some (s.setStore (s.store.failStreaming k.messageId disconnected))
    else some s

/-! ### The page -/

/-- What the watch on the property `conversationId` does. -/
def watch (s : Tab) (v : ℕ) (view : View) : Tab :=
  if view.selfNavigated then
    { s with views := s.views.set v { view with selfNavigated := false } }
  else
    match view.conversationId with
    | none => s.setStore { s.store with currentConversationId := none, messages := [] }
    | some c =>
        let store := s.store.fetchMessages c
        (s.setStore store).await (.opening v c store.messagesRequestId)

def mountedView (s : Tab) : Option ℕ :=
  s.views.findIdx? (·.mounted)

/-- The router goes to the page: it is mounted, or its property changes. -/
def goTo (s : Tab) (conversationId : Option ℕ) : Tab :=
  match s.mountedView with
  | none =>
      let view : View := { conversationId }
      { s with views := s.views ++ [view] }.watch s.views.length view
  | some v =>
      match s.views[v]? with
      | none => s
      | some view =>
          if view.conversationId = conversationId then s
          else
            let view := { view with conversationId }
            { s with views := s.views.set v view }.watch v view

/-- The page is unmounted, and its stream is stopped. -/
def leave (s : Tab) : Option Tab := do
  let v ← s.mountedView
  let view ← s.views[v]?
  some ({ s with views := s.views.set v { view with mounted := false } }.abort view.controller)

/-- `isGeneratingHere`. -/
def isGeneratingHere (s : Tab) (view : View) : Bool :=
  s.store.streaming.any fun b => some b.conversationId = view.conversationId && b.status ≠ .error

/-- `send` until its first request. -/
def send (s : Tab) (content : String) : Option Tab := do
  let v ← s.mountedView
  let view ← s.views[v]?
  if s.isGeneratingHere view then none
  else
    match view.conversationId with
    | none => some (s.await (.creating v content))
    | some c => some (s.await (.sending v c content))

/-- The rest of the watch with the messages: `resumeUnfinished`. -/
def opened (s : Tab) (v conversationId requestId : ℕ) (items : List MessageView) : Option Tab :=
  let store := s.store.fetchedMessages requestId items
  match store.unfinished with
  | none => some (s.setStore store)
  | some pending =>
      (s.setStore (store.beginStreaming pending.id conversationId)).start v conversationId
        pending.id

/-- The rest of `send` with the turn. -/
def sent (s : Tab) (v conversationId : ℕ) (content : String) (turn : TurnStartedOut) (now : ℕ) :
    Option Tab :=
  (s.setStore (s.store.sentMessage conversationId content turn now)).start v conversationId
    turn.messageId

section

variable (owner : ℕ → ℕ)

/-- What a response does.  The messages of a conversation belong to it, by `owner`. -/
def answer (s : Tab) (task : Task) (response : Response) : Option Tab :=
  match task, response with
  | .opening v c r, .messages items =>
      if items.all fun item => owner item.id = c then s.opened v c r items else none
  | .creating v content, .created c =>
      match s.views[v]? with
      | none => none
      | some view =>
          let s := { s with views := s.views.set v { view with selfNavigated := true } }
          some ((s.setStore { s.store with currentConversationId := some c }).await
            (.pushing v c content))
  | .pushing v c content, .pushed applied =>
      some ((if applied then s.goTo (some c) else s).await (.sending v c content))
  | .sending v c content, .turn turn now =>
      if owner turn.messageId = c then s.sent v c content turn now else none
  | .finishing _ m c r _, .messages items =>
      if items.all fun item => owner item.id = c then
        some (s.setStore ((s.store.fetchedMessages r items).finishedStreaming m))
      else none
  | .finishing id m _ _ again, .failed =>
      if again then some (s.setStore (s.store.failStreaming m disconnected))
      else do
        -- the handler raises, so that the connection is completed with an error
        let k ← s.connections.find? fun k => k.id = id
        if s.isCurrent k then some (s.finish k true) else some s
  | .opening .., .failed | .creating .., .failed | .sending .., .failed => some s
  | _, _ => none

def step (s : Tab) : TabAction → Option Tab
  | .goTo conversationId => some (s.goTo conversationId)
  | .leave => s.leave
  | .send content => s.send content
  | .stop => some (s.setStore s.store.stopStreaming)
  | .deleted c => some (s.setStore (s.store.deletedConversation c))
  | .answer i response => do
      let task ← s.tasks[i]?
      answer owner { s with tasks := s.tasks.eraseIdx i } task response
  | .event id event => s.receive id event
  | .outcome id outcome => s.conclude id outcome

/-- A tab, from when the application is loaded. -/
def tab : Machine Tab TabAction where
  init s := s = {}
  step a s := s.step owner a

end

end Tab

end Lumina.Frontend
