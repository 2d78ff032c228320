import Mathlib.Data.Nat.Notation

/-!
# Error codes and the errors of an AI provider

`ErrorCode` is the dictionary of error codes, as far as the modelled services use it.
A `ProviderError` is an instance of one of the classes below `ProviderError` in the
source; its class alone decides its code and whether it can be retried.
-/

namespace Lumina

/-- The error codes of the modelled services. -/
inductive ErrorCode where
  | resourceNotFound
  | validationFailed
  | internalError
  | resourceConflict
  | rateLimited
  | quotaExceeded
  | modelNotEnabled
  | providerUnavailable
  | etlFailed
  | streamInterrupted
deriving DecidableEq, Repr

/-- The value of an error code, as it is stored and sent. -/
def ErrorCode.text : ErrorCode → String
  | .resourceNotFound => "RESOURCE_NOT_FOUND"
  | .validationFailed => "VALIDATION_FAILED"
  | .internalError => "INTERNAL_ERROR"
  | .resourceConflict => "RESOURCE_CONFLICT"
  | .rateLimited => "RATE_LIMITED"
  | .quotaExceeded => "QUOTA_EXCEEDED"
  | .modelNotEnabled => "MODEL_NOT_ENABLED"
  | .providerUnavailable => "PROVIDER_UNAVAILABLE"
  | .etlFailed => "ETL_FAILED"
  | .streamInterrupted => "STREAM_INTERRUPTED"

/-- The class `ProviderError` and its subclasses. -/
inductive ProviderErrorClass where
  | providerError
  | timeout
  | unavailable
  | rateLimited
  | dimensionMismatch
  | requestRejected
  | auth
  | modelNotEnabled
deriving DecidableEq, Repr

namespace ProviderErrorClass

/-- The class attribute `code`. -/
def code : ProviderErrorClass → ErrorCode
  | .rateLimited => .rateLimited
  | .modelNotEnabled => .modelNotEnabled
  | _ => .providerUnavailable

/-- The class attribute `retryable`. -/
def retryable : ProviderErrorClass → Bool
  | .dimensionMismatch | .requestRejected | .auth | .modelNotEnabled => false
  | _ => true

/-- The name of the class. -/
def name : ProviderErrorClass → String
  | .providerError => "ProviderError"
  | .timeout => "ProviderTimeoutError"
  | .unavailable => "ProviderUnavailableError"
  | .rateLimited => "ProviderRateLimitedError"
  | .dimensionMismatch => "ProviderDimensionMismatchError"
  | .requestRejected => "ProviderRequestRejectedError"
  | .auth => "ProviderAuthError"
  | .modelNotEnabled => "ModelNotEnabledError"

end ProviderErrorClass

/-- A failed call of an AI provider. -/
structure ProviderError where
  cls : ProviderErrorClass
  message : String
deriving DecidableEq, Repr

namespace ProviderError

/-- Whether another attempt may succeed; the class decides. -/
def retryable (e : ProviderError) : Bool := e.cls.retryable

/-- The text of the error, `str(exc)`: its code in brackets and its message. -/
def text (e : ProviderError) : String :=
  "[" ++ e.cls.code.text ++ "] " ++ e.message

end ProviderError

end Lumina
