import Lumina.Core.Errors

/-!
# Deltas of a streamed answer

The vocabulary shared by the gateway, the providers below it and the chat service above
it.  A provider produces `ProviderDelta`s and expresses failure by an exception; a
`Delta` of the gateway may in addition be an `ErrorDelta`, the failure of a stream that
has already delivered something.
-/

namespace Lumina.Gateway

/-- The role of a message in a conversation. -/
inductive Role where
  | system
  | user
  | assistant
  | tool
deriving DecidableEq, Repr

/-- A message of a conversation. -/
structure ChatMessage where
  role : Role
  content : String
deriving DecidableEq, Repr

/-- A request for one answer. -/
structure ChatRequest where
  messages : List ChatMessage
  model : String
deriving DecidableEq, Repr

/-- The wall-clock limits of a call, in milliseconds: for the first delta, and for the
whole stream. -/
structure ChatTimeouts where
  ttft : Int
  total : Int
deriving DecidableEq, Repr

/-- A piece of the text of the answer. -/
structure TextDelta where
  text : String
deriving DecidableEq, Repr

/-- The status of a tool call. -/
inductive ToolStatus where
  | running
  | done
  | failed
deriving DecidableEq, Repr

/-- A tool call, with its complete arguments. -/
structure ToolCallDelta where
  callId : String
  name : String
  arguments : String
  status : ToolStatus := .running
deriving DecidableEq, Repr

/-- The usage of a call. -/
structure UsageDelta where
  promptTokens : ℕ
  completionTokens : ℕ
  model : String := ""
  provider : String := ""
  reasoningTokens : ℕ := 0
  estimated : Bool := false
deriving DecidableEq, Repr

namespace UsageDelta

/-- Reasoning tokens are billed as output. -/
def billableOutputTokens (u : UsageDelta) : ℕ :=
  u.completionTokens + u.reasoningTokens

/-- All tokens of the call. -/
def totalTokens (u : UsageDelta) : ℕ :=
  u.promptTokens + u.billableOutputTokens

end UsageDelta

/-- The normal end of an answer. -/
structure DoneDelta where
  finishReason : String
deriving DecidableEq, Repr

/-- The failure of a stream that has already delivered something.  The only detail is the
name of the class of its cause. -/
structure ErrorDelta where
  code : ErrorCode := .streamInterrupted
  message : String := ""
  retryable : Bool := true
  cause : String
deriving DecidableEq, Repr

/-- The deltas a provider can produce. -/
inductive ProviderDelta where
  | text (δ : TextDelta)
  | toolCall (δ : ToolCallDelta)
  | usage (δ : UsageDelta)
  | done (δ : DoneDelta)
deriving DecidableEq, Repr

/-- The deltas a caller of the gateway can see. -/
inductive Delta where
  | provided (δ : ProviderDelta)
  | error (δ : ErrorDelta)
deriving DecidableEq, Repr

namespace ProviderDelta

/-- A delta that reports usage. -/
def isUsage : ProviderDelta → Bool
  | usage _ => true
  | _ => false

/-- A delta that ends the answer. -/
def isDone : ProviderDelta → Bool
  | done _ => true
  | _ => false

/-- The text that a delta carries, if it is a text delta. -/
def text? : ProviderDelta → Option String
  | text δ => some δ.text
  | _ => none

@[simp] theorem isUsage_usage (u : UsageDelta) : (usage u).isUsage = true := rfl

@[simp] theorem isUsage_done (r : DoneDelta) : (done r).isUsage = false := rfl

@[simp] theorem isDone_done (r : DoneDelta) : (done r).isDone = true := rfl

@[simp] theorem isDone_usage (u : UsageDelta) : (usage u).isDone = false := rfl

@[simp] theorem text?_done (r : DoneDelta) : (done r).text? = none := rfl

@[simp] theorem text?_usage (u : UsageDelta) : (usage u).text? = none := rfl

theorem isDone_iff {δ : ProviderDelta} :
  δ.isDone = true ↔ ∃ r, δ = .done r
  := by
  cases δ
  all_goals simp [isDone]

end ProviderDelta

namespace Delta

/-- A delta that reports usage. -/
def isUsage : Delta → Bool
  | provided δ => δ.isUsage
  | error _ => false

/-- The two deltas that end a stream. -/
def isFinal : Delta → Bool
  | provided δ => δ.isDone
  | error _ => true

/-- The text that a delta carries, if it is a text delta. -/
def text? : Delta → Option String
  | provided δ => δ.text?
  | error _ => none

@[simp] theorem isUsage_provided (δ : ProviderDelta) : (provided δ).isUsage = δ.isUsage := rfl

@[simp] theorem isUsage_error (e : ErrorDelta) : (error e).isUsage = false := rfl

@[simp] theorem isFinal_provided (δ : ProviderDelta) : (provided δ).isFinal = δ.isDone := rfl

@[simp] theorem isFinal_error (e : ErrorDelta) : (error e).isFinal = true := rfl

@[simp] theorem text?_provided (δ : ProviderDelta) : (provided δ).text? = δ.text? := rfl

@[simp] theorem text?_error (e : ErrorDelta) : (error e).text? = none := rfl

end Delta

/-- The text deltas of a sequence of deltas. -/
def texts (δs : List Delta) : List String :=
  δs.filterMap Delta.text?

@[simp]
theorem texts_append (δs εs : List Delta) :
  texts (δs ++ εs) = texts δs ++ texts εs
  := List.filterMap_append

end Lumina.Gateway
