import Lumina.Chat.Turn
import Mathlib.Algebra.GroupWithZero.Nat

/-!
# Generating an answer

`generate` reads the stream of the gateway into the stream buffer and finalises the turn:
`complete` after the end of the answer or a stop, `fail` after an error.  The finalisers write
the row of the message first; what comes after that is guarded against every `Exception`.
The handlers of `_generate` run `fail` for whatever leaves its `try`.
-/

namespace Lumina.Chat

open Gateway Await

/-- The interval between two questions whether to stop, `STOP_POLL_SECONDS`. -/
def stopPollMs : ℕ := 200

/-! ### Finalising -/

/-- The characters that count as one token each: the CJK ranges of `etl/tokens.py`. -/
def isCjk (c : Char) : Bool :=
  [(0x3000, 0x303F), (0x3040, 0x30FF), (0x3400, 0x4DBF), (0x4E00, 0x9FFF), (0xAC00, 0xD7AF),
    (0xF900, 0xFAFF), (0xFF00, 0xFFEF)].any fun range =>
      range.1 ≤ c.toNat && c.toNat ≤ range.2

/-- The estimated number of tokens of a text. -/
def estimateTokens (text : String) : ℕ :=
  let cjk := text.toList.countP isCjk
  let others := text.length - cjk
  cjk + (others + 3) / 4

/-- The usage of an answer that was stopped before its usage was reported. -/
def estimatedUsage (prepared : Option PreparedTurn) (text : List String) : Option Usage :=
  match prepared with
  | none => none
  | some p =>
      if text.any (· ≠ "") then
        some
          { promptTokens := (p.request.messages.map (estimateTokens ·.content)).sum
            completionTokens := estimateTokens (String.join text)
            estimated := true }
      else none

/-- The citations of an answer, and the statistics of this turn. -/
def citationsOf (answer : String) (prepared : Option PreparedTurn) :
    List Citation × Option RagStats :=
  match prepared with
  | none => ([], none)
  | some p =>
      if answer = "" then ([], none)
      else
        let result := p.assembleCitations answer
        if p.retrieved then
          (result.citations, some
            { contextChunks := p.chunkCount
              citations := result.citations.length
              dropped := result.droppedMarkers.length
              degraded := p.degraded })
        else ([], none)

/-- `except Exception` around the steps after the row has been written: log, and go on. -/
def guarded (m : ChatM Unit) : ChatM Unit :=
  handle m fun e => if e.isException then pure () else raise e

/-- The second stage of the token quota: the actual usage, or the whole reservation back. -/
def settleTokens (site : Site) (reservation : Option QuotaReservation) (usage : Option Usage) :
    ChatM Unit :=
  match reservation, usage with
  | none, _ => pure ()
  | some r, some u => perform site (.commit r u.total)
  | some r, none => perform site (.release r)

/-- The event with the citations, if there was a retrieval. -/
def emitCitations (site : Site) (prepared : Option PreparedTurn) (citations : List Citation) :
    ChatM Unit :=
  if prepared.any (·.retrieved) then perform site (.append (.citations citations))
  else pure ()

/-- The row of the usage log of a turn. -/
def usageEvent (turn : TurnStarted) (model : String) (u : Usage) : UsageEvent where
  category := "llm"
  model := model
  promptTokens := u.promptTokens
  completionTokens := u.completionTokens
  requestId := turn.messageId
  userId := turn.userId
  conversationId := turn.conversationId

/-- The entry of the usage log, if there is any usage. -/
def recordUsage (site : Site) (turn : TurnStarted) (model : String) (usage : Option Usage) :
    ChatM Unit :=
  match usage with
  | none => pure ()
  | some u => perform site (.record (usageEvent turn model u))

/-- The row that a finaliser writes. -/
def finalRow (v : Vars) (status : MessageStatus) (usage : Option Usage)
    (error : Option MessageError) : MessageUpdate :=
  let answer := String.join v.text
  let found := citationsOf answer v.prepared
  { status := status
    error := error
    content := answer
    usage := usage
    rag := found.2
    model := v.model
    promptVersion := v.prepared.map (·.promptVersion)
    citations := found.1 }

/-- `_complete`: the normal end, with the variables `v`. -/
def complete (turn : TurnStarted) (inTry : Bool) (v : Vars) (finishReason : String)
    (usage : Option Usage) (status : MessageStatus) : ChatM Unit := do
  let row := finalRow v status usage none
  perform ⟨inTry, false⟩ (.persist row)
  let site : Site := ⟨inTry, true⟩
  guarded do
    recordUsage site turn v.model usage
    settleTokens site turn.tokenReservation usage
    emitCitations site v.prepared row.citations
    perform site (.append (.done turn.messageId finishReason))
    perform site .settleBuffer

/-- How a turn fails. -/
structure Failure where
  code : ErrorCode
  message : String
  retryable : Bool
  status : MessageStatus
  cause : Option String := none

/-- `_fail`: the end of a turn that fails, with the variables `v`. -/
def fail (turn : TurnStarted) (inTry : Bool) (v : Vars) (f : Failure) : ChatM Unit := do
  let row := finalRow v f.status v.usage (some ⟨f.code, f.cause⟩)
  perform ⟨inTry, false⟩ (.persist row)
  let site : Site := ⟨inTry, true⟩
  guarded do
    settleTokens site turn.tokenReservation v.usage
    emitCitations site v.prepared row.citations
    perform site (.append (.error f.code f.message f.retryable))
    perform site .settleBuffer

/-! ### Reading the stream -/

/-- An await of the `try` of `_generate` outside the finalisers. -/
def inTry (op : Op) : ChatM Unit :=
  perform ⟨true, false⟩ op

/-- Close the stream of the gateway, which does something only if it is suspended. -/
def closeStream : ChatM Unit := do
  let v ← get
  if v.suspended then
    modify fun v => { v with suspended := false }
    inTry .closeStream
  else pure ()

/-- Wait for the next delta.  A stream that raises is finished, not suspended. -/
def next : ChatM Unit := do
  modify fun v => { v with suspended := false }
  inTry .next
  modify fun v => { v with suspended := true }

/-- The failure of a stream that has delivered something. -/
def Failure.ofErrorDelta (δ : ErrorDelta) : Failure where
  code := δ.code
  message := δ.message
  retryable := δ.retryable
  status := .interrupted

/-- The usage as the chat service keeps it. -/
def Usage.ofDelta (u : UsageDelta) : Usage where
  promptTokens := u.promptTokens
  completionTokens := u.billableOutputTokens

/-- The end of a turn that the user has stopped. -/
def stopTurn (turn : TurnStarted) : ChatM Unit := do
  closeStream
  let v ← get
  complete turn true v "stopped" (v.usage <|> estimatedUsage v.prepared v.text) .interrupted

/-- Ask whether to stop, if the last question, at `checked`, is long enough ago: whether to
stop, and the time of the last question. -/
def pollStop (a : Arrival) (checked : ℕ) : ChatM (Bool × ℕ) :=
  if checked + stopPollMs ≤ a.time then do
    inTry .stopRequested
    pure (a.stop, a.time)
  else pure (false, checked)

/-- Take over a delta that does not end the answer. -/
def deliver : ProviderDelta → ChatM Unit
  | .text δ => do
      modify fun v => { v with text := v.text ++ [δ.text] }
      inTry (.append (.delta δ.text))
  | .usage u => do
      modify fun v =>
        { v with
          model := if u.model = "" then v.model else u.model
          usage := some (.ofDelta u) }
      inTry (.append (.usage (.ofDelta u)))
  | .toolCall δ => inTry (.append (.toolCall δ.name δ.arguments δ.status))
  | .done _ => pure ()

/-- The loop over the deltas of the gateway; `checked` is the time of the last question
whether to stop. -/
def consume (turn : TurnStarted) (ending : Option Exn) : List Arrival → ℕ → ChatM Unit
  | [], _ => do
      modify fun v => { v with suspended := false }
      inTry .next
      match ending with
      | none => pure ()
      | some e => raise e
  | a :: rest, checked => do
      next
      let polled ← pollStop a checked
      if polled.1 then stopTurn turn
      else match a.delta with
        | .error δ => do
            let v ← get
            fail turn true v (.ofErrorDelta δ)
        | .provided (.done δ) => do
            let v ← get
            complete turn true v δ.finishReason v.usage .completed
        | .provided δ => do
            deliver δ
            consume turn ending rest polled.2

/-! ### The whole generation -/

/-- The body of the `try` of `_generate`. -/
def generateBody (turn : TurnStarted) (script : Script) : ChatM Unit := do
  inTry .compose
  modify fun v => { v with prepared := some script.prepared }
  inTry (.append (.metaData turn.messageId turn.model turn.conversationId))
  inTry .buildGateway
  ensure (consume turn script.ending script.arrivals script.startedAt) closeStream

/-- The failure of a turn that raises. -/
def Failure.ofExn : Exn → Failure
  | .cancelled =>
      { code := .streamInterrupted
        message := "伺服器正在重啟，生成已中斷"
        retryable := true
        status := .interrupted
        cause := some "shutdown" }
  | .provider e =>
      { code := e.cls.code
        message := e.text
        retryable := e.retryable
        status := .failed }
  | .other typeName =>
      { code := .internalError
        message := "生成時發生非預期的錯誤"
        retryable := true
        status := .failed
        cause := some typeName }

/-- The handlers of `_generate`.  After a cancellation the finaliser is shielded, its
exceptions are suppressed, and the cancellation goes on. -/
def onException (turn : TurnStarted) (e : Exn) : ChatM Unit := do
  let v ← get
  let finalise := fail turn false v (.ofExn e)
  match e with
  | .cancelled => do
      guarded finalise
      raise .cancelled
  | _ => finalise

/-- `ChatService._generate`. -/
def generateInner (turn : TurnStarted) (script : Script) : ChatM Unit :=
  handle (generateBody turn script) (onException turn)

/-- `ChatService.generate`: the slot of the stream is released in any case. -/
def generate (turn : TurnStarted) (script : Script) : ChatM Unit :=
  ensure (generateInner turn script) <|
    match turn.streamReservation with
    | none => pure ()
    | some r => perform ⟨false, false⟩ (.releaseStream r)

/-- The log of a generation under an oracle. -/
def generateLog (turn : TurnStarted) (script : Script) (o : Oracle Op Site Exn) : Log :=
  ((generate turn script).run o ⟨{ model := turn.model }, []⟩).2.log

/-! ### A sample turn -/

/-- A turn with a reservation of 2000 tokens. -/
def sampleTurn : TurnStarted where
  messageId := 7
  conversationId := 3
  model := "m"
  tokenReservation := some ⟨1, "tokens_month", 2000, "t:1:quota:tokens_month"⟩

/-- An answer of one word, with its usage. -/
def sampleScript : Script where
  prepared :=
    { request := { messages := [⟨.user, "hello"⟩], model := "m" }
      promptVersion := 1
      chunkCount := 0
      retrieved := false
      degraded := []
      assembleCitations := fun _ => ⟨[], []⟩ }
  startedAt := 0
  arrivals :=
    [⟨.provided (.text ⟨"hi"⟩), 10, false⟩,
      ⟨.provided (.usage { promptTokens := 10, completionTokens := 5 }), 20, false⟩,
      ⟨.provided (.done ⟨"stop"⟩), 30, false⟩]
  ending := none

end Lumina.Chat
