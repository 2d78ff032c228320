import Lumina.Gateway.Delta
import Lumina.Library.Await

/-!
# A turn of a conversation

The data that the generation of one answer reads and writes: the turn that was started, what
was prepared for it, the events in the stream buffer of the message, the row of the message,
the usage log, and the reservations of the quota.

The operations of a generation are its awaits.  `Op` names them with the data they carry.
-/

namespace Lumina.Chat

open Gateway

/-! ### Data -/

/-- The status of a message. -/
inductive MessageStatus where
  | streaming
  | completed
  | interrupted
  | failed
deriving DecidableEq, Repr

namespace MessageStatus

/-- A message with a terminal status is finished. -/
def isTerminal : MessageStatus → Bool
  | streaming => false
  | _ => true

end MessageStatus

/-- A reservation of some amount of a resource, on the counter `key`. -/
structure QuotaReservation where
  tenantId : ℕ
  resource : String
  amount : ℕ
  key : String
deriving DecidableEq, Repr

/-- A turn whose messages have been created. -/
structure TurnStarted where
  messageId : ℕ
  conversationId : ℕ
  model : String
  userId : Option ℕ := none
  tokenReservation : Option QuotaReservation := none
  streamReservation : Option QuotaReservation := none
deriving DecidableEq, Repr

/-- The usage of an answer.  The source keeps it in a dictionary, which is empty as long as no
usage is known; here that is `none : Option Usage`. -/
structure Usage where
  promptTokens : ℕ
  completionTokens : ℕ
  estimated : Bool := false
deriving DecidableEq, Repr

/-- The tokens that a usage charges. -/
def Usage.total (u : Usage) : ℕ :=
  u.promptTokens + u.completionTokens

/-- A citation of a chunk, under its marker. -/
structure Citation where
  marker : String
  chunkId : ℕ
deriving DecidableEq, Repr

/-- The citations found in an answer, and the markers that match no chunk. -/
structure CitationResult where
  citations : List Citation
  droppedMarkers : List String
deriving DecidableEq, Repr

/-- The statistics of the citations, stored with the usage. -/
structure RagStats where
  contextChunks : ℕ
  citations : ℕ
  dropped : ℕ
  degraded : List String
deriving DecidableEq, Repr

/-- What is prepared before the gateway is asked.  `assembleCitations` is the assembly of
citations over the chunks of this turn. -/
structure PreparedTurn where
  request : ChatRequest
  promptVersion : ℕ
  chunkCount : ℕ
  retrieved : Bool
  degraded : List String
  assembleCitations : String → CitationResult

/-- The error stored with a message. -/
structure MessageError where
  code : ErrorCode
  cause : Option String
deriving DecidableEq, Repr

/-- The fields that `_persist` writes into the row of the message. -/
structure MessageUpdate where
  status : MessageStatus
  error : Option MessageError
  content : String
  usage : Option Usage
  rag : Option RagStats
  model : String
  promptVersion : Option ℕ
  citations : List Citation
deriving DecidableEq, Repr

/-- An event of the stream buffer. -/
inductive StreamEvent where
  | metaData (messageId : ℕ) (model : String) (conversationId : ℕ)
  | delta (text : String)
  | usage (u : Usage)
  | toolCall (name paramsPreview : String) (status : ToolStatus)
  | citations (items : List Citation)
  | done (messageId : ℕ) (finishReason : String)
  | error (code : ErrorCode) (title : String) (retryable : Bool)
deriving DecidableEq, Repr

namespace StreamEvent

/-- The events at which a client stops reading. -/
def isTerminal : StreamEvent → Bool
  | done .. | error .. => true
  | _ => false

end StreamEvent

/-- An entry of the usage log. -/
structure UsageEvent where
  category : String
  model : String
  promptTokens : ℕ
  completionTokens : ℕ
  requestId : ℕ
  userId : Option ℕ
  conversationId : ℕ
deriving DecidableEq, Repr

/-! ### Operations -/

/-- The awaits of a generation. -/
inductive Op where
  | compose
  | buildGateway
  | next
  | stopRequested
  | closeStream
  | append (event : StreamEvent)
  | settleBuffer
  | persist (row : MessageUpdate)
  | record (event : UsageEvent)
  | commit (reservation : QuotaReservation) (actual : ℕ)
  | release (reservation : QuotaReservation)
  | releaseStream (reservation : QuotaReservation)
deriving DecidableEq

/-- Where an await stands: inside the `try` of `_generate`, whose handlers finalise again, and
inside the region of a finaliser that catches every `Exception`. -/
structure Site where
  inTry : Bool
  guarded : Bool
deriving DecidableEq

/-- An exception: `CancelledError`, which is no `Exception`, or an `Exception`. -/
inductive Exn where
  | cancelled
  | provider (e : ProviderError)
  | other (typeName : String)
deriving DecidableEq

/-- Whether `except Exception` catches an exception. -/
def Exn.isException : Exn → Bool
  | cancelled => false
  | _ => true

/-- The variables of `_generate`.  `suspended` is the state of the stream of the gateway: it
waits at a `yield`, so that closing it resumes it. -/
structure Vars where
  text : List String := []
  usage : Option Usage := none
  model : String
  prepared : Option PreparedTurn := none
  suspended : Bool := false

/-- The computations of the chat service. -/
abbrev ChatM : Type → Type :=
  Await Op Site Exn Vars

/-- The log of a generation. -/
abbrev Log : Type :=
  List (Await.Entry Op Site Exn)

/-- The stream of the gateway, as `_generate` meets it: a delta, the time in milliseconds at
which it is there, and whether a stop is requested at that time. -/
structure Arrival where
  delta : Delta
  time : ℕ
  stop : Bool

/-- What a generation meets: the prepared turn, the time at which it starts to read, the
deltas of the gateway, and the exception that ends them, if any. -/
structure Script where
  prepared : PreparedTurn
  startedAt : ℕ
  arrivals : List Arrival
  ending : Option Exn

end Lumina.Chat
