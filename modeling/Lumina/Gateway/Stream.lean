import Lumina.Gateway.Delta
import Mathlib.Algebra.GroupWithZero.Nat
import Mathlib.Data.List.Basic

/-!
# The streaming side of the gateway

`AIGateway.streamChat` runs one generation: it tries the requested model and then the
fallback models, each with its retries, until a delta has been delivered.  A generator
that is consumed to its end is modelled by what it yields, in order, and by how it ends.

The provider is a parameter.  Its behaviour at a call is a `ProviderCall`: the deltas it
produces, each with the time it takes to arrive and the time the caller then keeps it, and
how the stream ends.  The code of the gateway sees the index of the call, so a provider
may answer the same request differently each time.
-/

namespace Lumina.Gateway

/-! ### Providers -/

/-- A delta of a provider, the milliseconds until it arrives once it is asked for, and the
milliseconds after which the caller asks for the next one. -/
structure TimedDelta where
  wait : ℕ
  delta : ProviderDelta
  held : ℕ

/-- How the stream of a provider ends: it stops, it raises an error of our own, the
builtin `TimeoutError`, or an exception of any other class. -/
inductive Ending where
  | stopped
  | providerError (e : ProviderError)
  | timeoutError
  | foreign (typeName : String)

/-- One call of `stream_chat` of a provider.  The ending arrives `endingWait` milliseconds
after it is waited for; one that arrives later than every limit is a provider that hangs. -/
structure ProviderCall where
  deltas : List TimedDelta
  ending : Ending
  endingWait : ℕ

/-- A chat provider: its name, and what it does at its `n`-th call. -/
structure ChatProvider where
  name : String
  streamChat : ℕ → ChatRequest → ProviderCall

/-- What the provider of a call produces, without the times. -/
def ProviderCall.provided (c : ProviderCall) : List ProviderDelta :=
  c.deltas.map TimedDelta.delta

/-- The gateway, as far as chat is concerned. -/
structure AIGateway where
  chat : Option ChatProvider
  chatTimeouts : ChatTimeouts
  chatFallbackModels : List String
  backoff : List Int

/-! ### One attempt -/

/-- A number of milliseconds in seconds, without trailing zeros.  The format `:g` of the
source shows six significant digits, which is all of them below a thousand seconds. -/
def secondsText (ms : Int) : String :=
  let sign := if ms < 0 then "-" else ""
  let whole := toString (ms.natAbs / 1000)
  let decimals := (toString (1000 + ms.natAbs % 1000)).toList.tail
  let shown := (decimals.reverse.dropWhile (· == '0')).reverse
  sign ++ whole ++ (if shown.isEmpty then "" else "." ++ String.ofList shown)

/-- The error of a stream that exceeds its total limit. -/
def totalExceeded (name : String) (timeouts : ChatTimeouts) : ProviderError where
  cls := .timeout
  message := name ++ " 超過整體上限（" ++ secondsText timeouts.total ++ "s）"

/-- The error of a wait that timed out. -/
def timeoutFor (name : String) (timeouts : ChatTimeouts) (first : Bool) : ProviderError :=
  if first then
    { cls := .timeout
      message := name ++ " 的第一個 token 超過 " ++ secondsText timeouts.ttft ++ "s" }
  else
    totalExceeded name timeouts

/-- The error of waiting for `wait` milliseconds at the time `now`, if a limit is exceeded. -/
def overrun (name : String) (timeouts : ChatTimeouts) (now : Int) (first : Bool) (wait : ℕ) :
    Option ProviderError :=
  let budget := if first then timeouts.ttft else timeouts.total - now
  if budget ≤ 0 then some (totalExceeded name timeouts)
  else if budget < wait then some (timeoutFor name timeouts first)
  else none

/-- The error by which the end of a provider stream is reported, if any.  Every exception
that is not a provider error becomes one. -/
def Ending.error (name : String) (timeouts : ChatTimeouts) (first : Bool) :
    Ending → Option ProviderError
  | .stopped => none
  | .providerError e => some e
  | .timeoutError => some (timeoutFor name timeouts first)
  | .foreign typeName =>
      some { cls := .unavailable, message := name ++ " 呼叫失敗：" ++ typeName }

/-- `_iterate`, from the time `now` on: the deltas that arrive within the limits, and the
error that ends them, if any. -/
def iterate (name : String) (timeouts : ChatTimeouts) (c : ProviderCall) :
    (now : Int) → (waitingForFirst : Bool) → List TimedDelta →
      List ProviderDelta × Option ProviderError
  | now, first, [] =>
      match overrun name timeouts now first c.endingWait with
      | some e => ([], some e)
      | none => ([], c.ending.error name timeouts first)
  | now, first, d :: ds =>
      match overrun name timeouts now first d.wait with
      | some e => ([], some e)
      | none =>
          let rest := iterate name timeouts c (now + d.wait + d.held) false ds
          (d.delta :: rest.1, rest.2)

/-- The progress of one `stream_chat`; it outlives retries and fallback. -/
structure StreamState where
  request : ChatRequest
  provider : String
  model : String := ""
  started : Bool := false
  usageSeen : Bool := false
  completionChars : ℕ := 0

namespace StreamState

/-- The usage reported in place of a provider that reports none. -/
def estimatedUsage (s : StreamState) : UsageDelta :=
  let promptChars := (s.request.messages.map (·.content.length)).sum
  { promptTokens := max 1 (promptChars / 4)
    completionTokens := max 1 (s.completionChars / 4)
    model := if s.model = "" then s.request.model else s.model
    provider := s.provider
    estimated := true }

/-- The tail of an interrupted stream: the usage, if it is missing, and the error. -/
def interrupted (s : StreamState) (e : ProviderError) : List Delta :=
  (if s.usageSeen then [] else [.provided (.usage s.estimatedUsage)]) ++
    [.error
      { code := .streamInterrupted
        message := e.text
        retryable := true
        cause := e.cls.name }]

/-- The state after a delta other than `done` has been delivered. -/
def deliver (s : StreamState) (δ : ProviderDelta) : StreamState :=
  { s with
    started := true
    usageSeen := s.usageSeen || δ.isUsage
    completionChars := s.completionChars + ((δ.text?.map String.length).getD 0) }

@[simp] theorem started_deliver (s : StreamState) (δ : ProviderDelta) :
  (s.deliver δ).started = true
  := rfl

@[simp] theorem usageSeen_deliver (s : StreamState) (δ : ProviderDelta) :
  (s.deliver δ).usageSeen = (s.usageSeen || δ.isUsage)
  := rfl

end StreamState

/-- `_attempt`, given the deltas and the error of `_iterate`: what one attempt yields, the
state it leaves, and the error it raises.  The attempt ends at the first `done`, and the
missing usage is put before it; a stream that stops without `done` is an error. -/
def attempt (e : Option ProviderError) :
    List ProviderDelta → StreamState → List Delta × StreamState × Option ProviderError
  | [], s =>
      let incomplete : ProviderError :=
        { cls := .unavailable, message := s.provider ++ " 的回應在結束前中斷" }
      ([], s, some (e.getD incomplete))
  | .done r :: _, s =>
      let usage := if s.usageSeen then [] else [.provided (.usage s.estimatedUsage)]
      (usage ++ [.provided (.done r)], { s with started := true }, none)
  | δ :: δs, s =>
      let rest := attempt e δs (s.deliver δ)
      (.provided δ :: rest.1, rest.2)

/-! ### Retries and fallback -/

/-- What happens while a stream is consumed: the provider is called, a delta is yielded, or
the gateway sleeps. -/
inductive Event where
  | call (request : ChatRequest)
  | yield (δ : Delta)
  | sleep (ms : Int)
deriving DecidableEq

namespace Event

/-- The delta that an event yields, if any. -/
def yield? : Event → Option Delta
  | yield δ => some δ
  | _ => none

/-- The request of a call of the provider, if the event is one. -/
def call? : Event → Option ChatRequest
  | call request => some request
  | _ => none

@[simp] theorem yield?_call (request : ChatRequest) : (call request).yield? = none := rfl

@[simp] theorem yield?_yield (δ : Delta) : (yield δ).yield? = some δ := rfl

@[simp] theorem yield?_sleep (ms : Int) : (sleep ms).yield? = none := rfl

@[simp] theorem call?_call (request : ChatRequest) : (call request).call? = some request := rfl

@[simp] theorem call?_yield (δ : Delta) : (yield δ).call? = none := rfl

@[simp] theorem call?_sleep (ms : Int) : (sleep ms).call? = none := rfl

end Event

/-- How a stream, consumed to its end, ends. -/
inductive Outcome where
  | returned
  | raised (e : ProviderError)
deriving DecidableEq

/-- A fully consumed stream. -/
structure Stream where
  events : List Event
  outcome : Outcome
deriving DecidableEq

namespace Stream

/-- The stream that begins with the given events. -/
def after (before : List Event) (r : Stream) : Stream :=
  { r with events := before ++ r.events }

/-- The deltas that a stream yields, in order. -/
def yielded (r : Stream) : List Delta :=
  r.events.filterMap Event.yield?

/-- The requests of the provider calls of a stream, in order. -/
def calls (r : Stream) : List ChatRequest :=
  r.events.filterMap Event.call?

end Stream

/-- The part of `stream_chat` below the check of the provider. -/
structure Generation where
  provider : ChatProvider
  timeouts : ChatTimeouts
  backoff : List Int
  request : ChatRequest

namespace Generation

/-- The request as it is sent for one of the candidates. -/
def requestFor (g : Generation) (model : String) : ChatRequest :=
  { g.request with model := model }

/-- One attempt with `model`, the `n`-th call of the provider. -/
def call (g : Generation) (model : String) (n : ℕ) (s : StreamState) :
    List Delta × StreamState × Option ProviderError :=
  let c := g.provider.streamChat n (g.requestFor model)
  let stream := iterate g.provider.name g.timeouts c 0 true c.deltas
  attempt stream.2 stream.1 { s with model := model }

/-- The loop over the attempts with one model; `delays` are the backoffs that remain, and
`next` is what the candidates after this one do.  An attempt is exhausted when both are
missing.  There is a pause between two attempts with one model, and none before the next
model. -/
def tryModel (g : Generation) (model : String) (next : Option (ℕ → StreamState → Stream)) :
    (delays : List Int) → ℕ → StreamState → Stream
  | delays, n, s =>
      let called := Event.call (g.requestFor model)
      match g.call model n s with
      | (δs, _, none) => { events := called :: δs.map .yield, outcome := .returned }
      | (δs, s', some e) =>
          let events := called :: δs.map .yield
          if s'.started then
            { events := events ++ (s'.interrupted e).map .yield, outcome := .returned }
          else if !e.retryable then { events := events, outcome := .raised e }
          else match delays with
            | delay :: delays =>
                let pause := if delay = 0 then [] else [Event.sleep delay]
                (g.tryModel model next delays (n + 1) s').after (events ++ pause)
            | [] =>
                match next with
                | some next => (next (n + 1) s').after events
                | none => { events := events, outcome := .raised e }

/-- The loop over the candidates: `model`, and then `models`. -/
def run (g : Generation) : String → (models : List String) → ℕ → StreamState → Stream
  | model, [] => g.tryModel model none g.backoff
  | model, next :: models => g.tryModel model (some (g.run next models)) g.backoff

end Generation

/-- `AIGateway.stream_chat`, consumed to its end. -/
def AIGateway.streamChat (gw : AIGateway) (request : ChatRequest) : Stream :=
  match gw.chat with
  | none =>
      { events := []
        outcome := .raised
          { cls := .unavailable, message := "這個 Gateway 沒有 chat provider" } }
  | some provider =>
      let g : Generation :=
        { provider := provider
          timeouts := gw.chatTimeouts
          backoff := gw.backoff
          request := request }
      g.run request.model gw.chatFallbackModels 0
        { request := request, provider := provider.name }

end Lumina.Gateway
