import Lumina.Api.RateLimit
import Lumina.Library.IsoText
import Lumina.Library.Json

/-!
# The life of a request

A request goes through four layers: the context of the request, the rate limit, the limit of the
body and the audit.  What is below them is the application, which may send anything, authenticate,
find a route, describe what it changes, and end in any way.  A layer that waits may be cancelled.

The layers hand data to each other through context variables.  Requests that are served one after
another in one context may meet what an earlier one has left there.

Other scopes than requests are passed on unchanged, and left out; so are the headers that Starlette
adds to a response.
-/

namespace Lumina.Api.Lifecycle

open IsoText (Uuid)

abbrev Bytes := List UInt8

abbrev Header := Bytes × Bytes

/-- What `before` and `after` are. -/
abbrev Fields := List (String × Json.Value)

structure Request where
  method : String
  path : String
  headers : List Header := []
  /-- `client.host` -/
  client : Option String := none
  /-- The id that the server draws for the request. -/
  requestId : String

/-! ### Problems -/

/-- The body of a problem response. -/
structure Problem where
  type : String
  title : String
  status : ℕ
  detail : String
  requestId : String
  code : String
  /-- The member `details`. -/
  details : Option (String × ℤ) := none
deriving DecidableEq

inductive Message where
  /-- `http.response.start` -/
  | start (status : ℕ) (headers : List Header)
  /-- `http.response.body` -/
  | body (content : Bytes)
  /-- The body of a problem response. -/
  | problem (p : Problem)
deriving DecidableEq

def encode (s : String) : Bytes := s.toUTF8.toList

/-- `x-request-id` -/
def requestIdHeader : Bytes := [120, 45, 114, 101, 113, 117, 101, 115, 116, 45, 105, 100]

/-- `retry-after` -/
def retryAfterHeader : Bytes := [114, 101, 116, 114, 121, 45, 97, 102, 116, 101, 114]

/-- `problem_response` -/
def problemResponse (p : Problem) (headers : List Header) : List Message :=
  [.start p.status (headers ++ [(requestIdHeader, encode p.requestId)]), .problem p]

/-! ### Context variables -/

/-- `AuditScope` -/
structure AuditScope where
  ip : Option String
  userAgent : Etl.Text
  requestId : String
  resourceId : Option Uuid := none
  before : Option Fields := none
  after : Option Fields := none
  permission : Option String := none

structure Ctx where
  /-- `_current_tenant_id` -/
  tenant : Option Uuid := none
  /-- The `request_id` of the log. -/
  bound : Option String := none
  /-- `_current_scope` -/
  audit : Option AuditScope := none
  /-- `_cache` -/
  cache : Option (List (String × Json.Value)) := none

/-- A row of the access log. -/
structure AccessLog where
  requestId : Option String
  tenantId : Option Uuid
  method : String
  path : String
  status : ℕ
deriving DecidableEq

inductive AuditOutcome where
  | succeeded
  | denied
  | failed
deriving DecidableEq, Repr

/-- A row of `platform_auditlog`. -/
structure AuditRow where
  tenantId : Uuid
  action : String
  resourceType : String
  outcome : AuditOutcome
  requestId : String
  actorId : Option Uuid
  actorType : String
  resourceId : Option Uuid
  before : Option Fields
  after : Option Fields
  status : ℕ
  permission : Option String
  ip : Option String
  userAgent : Etl.Text

structure World where
  ctx : Ctx := {}
  /-- What has been sent. -/
  wire : List Message := []
  logs : List AccessLog := []
  rows : List AuditRow := []
  /-- What `cached` has returned. -/
  answers : List Json.Value := []

/-- The world, and what the layers and the application know of the request. -/
structure Run where
  world : World
  /-- `status_seen` of the request context -/
  logStatus : ℕ := 500
  /-- `status_seen` of the audit -/
  auditStatus : ℕ := 500
  /-- `operation_id` of the route -/
  operation : Option String := none
  /-- `path_params`, as far as they are ids -/
  pathParams : List (String × Option Uuid) := []
  /-- `principal.user_id` -/
  principal : Option Uuid := none

inductive Outcome where
  | returned
  | raised
  | cancelled
deriving DecidableEq, Repr

abbrev Send := Message → Run → Run

abbrev App := Send → Run → Run × Outcome

/-! ### The application -/

inductive Act where
  | send (m : Message)
  /-- A route is found. -/
  | route (operation : Option String) (pathParams : List (String × Option Uuid))
  /-- `require_authenticated` -/
  | authenticate (tenantId userId : Uuid)
  /-- `audit.describe` -/
  | describe (resourceId : Option Uuid) (before after : Option Fields) (permission : Option String)
  /-- `cached`, with what `produce` would return -/
  | ask (key : String) (value : Json.Value)

namespace Run

variable (s : Run)

def setCtx (ctx : Ctx) : Run := { s with world := { s.world with ctx := ctx } }

def ctx : Ctx := s.world.ctx

/-- `audit.describe` -/
def describe (resourceId : Option Uuid) (before after : Option Fields)
    (permission : Option String) : Run :=
  match s.ctx.audit with
  | none => s
  | some current =>
      s.setCtx { s.ctx with audit := some { current with
        resourceId := resourceId <|> current.resourceId
        before := before <|> current.before
        after := after <|> current.after
        permission := permission <|> current.permission } }

def answer (value : Json.Value) : Run :=
  { s with world := { s.world with answers := s.world.answers ++ [value] } }

/-- `cached` -/
def ask (key : String) (value : Json.Value) : Run :=
  match s.ctx.cache with
  | none => s.answer value
  | some store =>
      match store.lookup key with
      | some known => s.answer known
      | none => (s.setCtx { s.ctx with cache := some ((key, value) :: store) }).answer value

def act (send : Send) : Act → Run
  | .send m => send m s
  | .route operation pathParams => { s with operation := operation, pathParams := pathParams }
  | .authenticate tenantId userId =>
      { s.setCtx { s.ctx with tenant := some tenantId } with principal := some userId }
  | .describe resourceId before after permission => s.describe resourceId before after permission
  | .ask key value => s.ask key value

end Run

/-- What is below the layers. -/
def application (acts : List Act) (ending : Outcome) : App := fun send s =>
  (acts.foldl (fun s a => s.act send a) s, ending)

/-! ### AuditMiddleware -/

/-- `WRITE_METHODS` -/
def writeMethods : List String := ["POST", "PUT", "PATCH", "DELETE"]

structure AuditSpec where
  action : String
  resourceType : String
  pathParam : Option String
deriving DecidableEq

/-- `AUDIT_ACTIONS` -/
def auditActions : List (String × AuditSpec) :=
  [("users_create", ⟨"user.create", "user", none⟩),
    ("users_update", ⟨"user.update", "user", "user_id"⟩),
    ("users_update_me", ⟨"user.update", "user", none⟩),
    ("users_deactivate", ⟨"user.deactivate", "user", "user_id"⟩),
    ("auth_change_password", ⟨"user.change_password", "user", none⟩),
    ("auth_logout", ⟨"auth.logout", "session", none⟩),
    ("tenants_update_current", ⟨"tenant.update", "tenant", none⟩),
    ("settings_update", ⟨"settings.update", "tenant", none⟩),
    ("knowledge_bases_create", ⟨"knowledge_base.create", "knowledge_base", none⟩),
    ("knowledge_bases_update", ⟨"knowledge_base.update", "knowledge_base", "kb_id"⟩),
    ("knowledge_bases_delete", ⟨"knowledge_base.delete", "knowledge_base", "kb_id"⟩),
    ("knowledge_bases_reindex", ⟨"knowledge_base.reindex", "knowledge_base", "kb_id"⟩),
    ("documents_upload", ⟨"document.upload", "document", none⟩),
    ("documents_reingest", ⟨"document.reingest", "document", "document_id"⟩),
    ("documents_delete", ⟨"document.delete", "document", "document_id"⟩)]

/-- `AUDIT_EXEMPT` -/
def auditExempt : List String :=
  ["auth_refresh", "conversations_create", "conversations_update", "conversations_delete",
    "conversations_send_message", "conversations_stop_message", "rag_query",
    "notifications_mark_read"]

/-- `RECORDED_BY_SERVICE` -/
def recordedByService : List String := ["auth_login"]

/-- The spec of an operation that is not declared. -/
def unregistered (operation : Option String) : AuditSpec where
  action := "unregistered." ++ match operation with
    | some operation => if operation = "" then "unknown" else operation
    | none => "unknown"
  resourceType := "unknown"
  pathParam := none

def auditSpec (operation : Option String) : AuditSpec :=
  (operation.bind fun name => auditActions.lookup name).getD (unregistered operation)

/-- `_outcome` -/
def outcomeOf (status : ℕ) : AuditOutcome :=
  if status = 403 then .denied else if status < 400 then .succeeded else .failed

/-- `_path_resource_id` -/
def pathResourceId (pathParams : List (String × Option Uuid)) (spec : AuditSpec) : Option Uuid :=
  spec.pathParam.bind fun name => (pathParams.lookup name).join

/-- The operation is not recorded by the middleware. -/
def exempt (operation : Option String) : Bool :=
  match operation with
  | some name => auditExempt.contains name || recordedByService.contains name
  | none => false

/-- What becomes of the insertion of a row: the database may fail, and the wait for it may be
cancelled. -/
structure Recording where
  stored : Bool := true
  cancelled : Bool := false
deriving DecidableEq

/-- `request.headers.get("user-agent", "")` -/
def userAgent (headers : List Header) : Etl.Text :=
  match headers.find? fun h => RateLimit.lower h.1 = encode "user-agent" with
  | some (_, value) => RateLimit.decodeLatin1 value
  | none => []

section Layers

variable (r : Request)

/-- `AuditMiddleware._record` -/
def record (recording : Recording) (current : AuditScope) (status : ℕ) (s : Run) : Run × Bool :=
  if !writeMethods.contains r.method || exempt s.operation then (s, false)
  else
    match s.ctx.tenant with
    | none => (s, false)
    | some tenantId =>
        let spec := auditSpec s.operation
        let row : AuditRow :=
          { tenantId := tenantId
            action := spec.action
            resourceType := spec.resourceType
            outcome := outcomeOf status
            requestId := current.requestId
            actorId := s.principal
            actorType := if s.principal.isSome then "user" else "system"
            resourceId := current.resourceId <|> pathResourceId s.pathParams spec
            before := current.before
            after := current.after
            status := status
            permission := current.permission
            ip := current.ip
            userAgent := current.userAgent }
        (if recording.stored then { s with world := { s.world with rows := s.world.rows ++ [row] } }
          else s, recording.cancelled)

/-- `audit.scope`, as the middleware opens it. -/
def opened : AuditScope where
  ip := r.client
  userAgent := userAgent r.headers
  requestId := r.requestId

/-- `watch_status` -/
def watchStatus (send : Send) : Send
  | .start status headers, s => send (.start status headers) { s with auditStatus := status }
  | m, s => send m s

/-- The row of a request that is over, if one is due. -/
def recordEnd (recording : Recording) (status : ℕ) (s : Run) (outcome : Outcome) : Run × Outcome :=
  let (s, cancelled) := record r recording (s.ctx.audit.getD (opened r)) status s
  (s, if cancelled then .cancelled else outcome)

/-- `AuditMiddleware` -/
def auditMiddleware (recording : Recording) (app : App) : App := fun send s =>
  let outer := s.ctx.audit
  let (s, outcome) := app (watchStatus send)
    { s.setCtx { s.ctx with audit := some (opened r) } with auditStatus := 500 }
  let (s, outcome) : Run × Outcome :=
    match outcome with
    | .cancelled => (s, .cancelled)
    | .raised => recordEnd r recording 500 s .raised
    | .returned => recordEnd r recording s.auditStatus s .returned
  (s.setCtx { s.ctx with audit := outer }, outcome)

/-! ### BodySizeLimitMiddleware -/

/-- A digit or a separator in a numeral that `int` reads. -/
def isDigit (b : UInt8) : Bool := 48 ≤ b && b ≤ 57

def isSpace (b : UInt8) : Bool := b = 32 || (9 ≤ b && b ≤ 13)

/-- The number of digits that `int` reads at most. -/
def maxDigits : ℕ := 4300

/-- The digits of a numeral, with single underscores between them. -/
def readDigits (numeral : Bytes) : Option ℕ :=
  let groups := numeral.splitOn 95
  let digits := groups.flatten
  if groups.all (fun g => g ≠ [] && g.all isDigit) && digits.length ≤ maxDigits then
    some (digits.foldl (fun n b => 10 * n + (b.toNat - 48)) 0)
  else none

/-- `int(value)` -/
def readInt (value : Bytes) : Option ℤ :=
  match ((value.dropWhile isSpace).reverse.dropWhile isSpace).reverse with
  | 43 :: numeral => (readDigits numeral).map fun n => (n : ℤ)
  | 45 :: numeral => (readDigits numeral).map fun n => -(n : ℤ)
  | numeral => (readDigits numeral).map fun n => (n : ℤ)

/-- `MAX_REQUEST_BYTES` -/
def maxRequestBytes : ℤ := 32 * 1024 * 1024 + 1024 * 1024

/-- `content-length` -/
def contentLength : Bytes := [99, 111, 110, 116, 101, 110, 116, 45, 108, 101, 110, 103, 116, 104]

/-- `_too_large` -/
def tooLarge (headers : List Header) : Bool :=
  match headers.find? fun h => RateLimit.lower h.1 = contentLength with
  | some (_, value) =>
      match readInt value with
      | some length => maxRequestBytes < length
      | none => false
  | none => false

/-- The messages of a response are sent, or some of them until the request is cancelled. -/
def refuse (stopped : Option ℕ) (response : List Message) (send : Send) (s : Run) : Run × Outcome :=
  match stopped with
  | none => (response.foldl (fun s m => send m s) s, .returned)
  | some n => ((response.take n).foldl (fun s m => send m s) s, .cancelled)

def tooLargeProblem : Problem where
  type := "/errors/upload-too-large"
  title := "Upload too large"
  status := 413
  detail := "請求內容超過上限（34603008 位元組）"
  requestId := r.requestId
  code := "UPLOAD_TOO_LARGE"

/-- `BodySizeLimitMiddleware` -/
def bodySizeLimitMiddleware (stopped : Option ℕ) (app : App) : App := fun send s =>
  if tooLarge r.headers then refuse stopped (problemResponse (tooLargeProblem r) []) send s
  else app send s

/-! ### RateLimitMiddleware -/

/-- `rate_limit_retry_after_seconds` is a setting. -/
structure Settings where
  rate : RateLimit.Settings := {}
  retryAfterSeconds : ℤ := 60

variable (cfg : Settings)

def rateLimitedProblem : Problem where
  type := "/errors/rate-limited"
  title := "Rate limited"
  status := 429
  detail := "請求過於頻繁，請稍後再試"
  requestId := r.requestId
  code := "RATE_LIMITED"
  details := some ("retry_after_seconds", cfg.retryAfterSeconds)

def rateScope : RateLimit.Scope where
  path := r.path
  headers := r.headers
  client := r.client

/-- `RateLimitMiddleware`, with what has become of the counting. -/
def rateLimitMiddleware (verdict : RateLimit.Verdict) (stopped : Option ℕ) (app : App) : App :=
  fun send s =>
    if RateLimit.limited cfg.rate (rateScope r) then
      match verdict with
      | .within _ | .unavailable _ => app send s
      | .over _ =>
          refuse stopped (problemResponse (rateLimitedProblem r cfg)
            [(retryAfterHeader, encode (toString cfg.retryAfterSeconds))]) send s
      | .cancelled _ => (s, .cancelled)
    else app send s

/-! ### RequestContextMiddleware -/

/-- The header is added unless the response has it. -/
def withRequestId (headers : List Header) : List Header :=
  if headers.any fun h => RateLimit.lower h.1 = requestIdHeader then headers
  else headers ++ [(requestIdHeader, encode r.requestId)]

/-- `send_with_request_id` -/
def sendWithRequestId (send : Send) : Send
  | .start status headers, s =>
      send (.start status (withRequestId r headers)) { s with logStatus := status }
  | m, s => send m s

/-- `emit` -/
def emit (status : ℕ) (s : Run) : Run :=
  { s with world := { s.world with logs := s.world.logs ++
    [⟨s.ctx.bound, s.ctx.tenant, r.method, r.path, status⟩] } }

/-- The id is bound, and `request_cache` entered. -/
def enterContext (s : Run) : Run :=
  { s.setCtx { s.ctx with bound := some r.requestId, cache := some [] } with logStatus := 500 }

/-- `request_cache` is left, the request is logged unless it has been cancelled, and the context is
cleared. -/
def leaveContext (outer : Option (List (String × Json.Value))) (s : Run) (outcome : Outcome) :
    Run × Outcome :=
  let s := s.setCtx { s.ctx with cache := outer }
  let s :=
    match outcome with
    | .returned => emit r s.logStatus s
    | .raised => emit r 500 s
    | .cancelled => s
  (s.setCtx { s.ctx with tenant := none, bound := none }, outcome)

/-- `RequestContextMiddleware` -/
def requestContextMiddleware (app : App) : App := fun send s =>
  let (inner, outcome) := app (sendWithRequestId r send) (enterContext r s)
  leaveContext r s.ctx.cache inner outcome

end Layers

/-! ### The stack -/

/-- What happens to a request. -/
structure Course where
  verdict : RateLimit.Verdict
  /-- A refusal is cancelled after so many messages. -/
  stopped : Option ℕ := none
  acts : List Act := []
  ending : Outcome := .returned
  recording : Recording := {}

/-- What the server sends. -/
def transmit : Send := fun m s =>
  { s with world := { s.world with wire := s.world.wire ++ [m] } }

/-- `create_app` -/
def stack (cfg : Settings) (r : Request) (c : Course) : App :=
  requestContextMiddleware r <| rateLimitMiddleware r cfg c.verdict c.stopped <|
    bodySizeLimitMiddleware r c.stopped <| auditMiddleware r c.recording <|
      application c.acts c.ending

def handle (cfg : Settings) (w : World) (x : Request × Course) : World :=
  (stack cfg x.1 x.2 transmit { world := w }).1.world

/-- The requests are served one after another, in one context. -/
def serve (cfg : Settings) (requests : List (Request × Course)) (w : World) : World :=
  requests.foldl (handle cfg) w

/-! ### What the application does -/

def Act.status? : Act → Option ℕ
  | .send (.start status _) => some status
  | _ => none

def Act.tenant? : Act → Option (Option Uuid)
  | .authenticate tenantId _ => some (some tenantId)
  | _ => none

def Act.user? : Act → Option (Option Uuid)
  | .authenticate _ userId => some (some userId)
  | _ => none

def Act.operation? : Act → Option (Option String)
  | .route operation _ => some operation
  | _ => none

def Act.pathParams? : Act → Option (List (String × Option Uuid))
  | .route _ pathParams => some pathParams
  | _ => none

/-- The last of the values, or the one at the start. -/
def lastOf {α : Type} (f : Act → Option α) (start : α) : List Act → α
  | [] => start
  | a :: acts => lastOf f ((f a).getD start) acts

/-- What has been described. -/
def describedBy (current : AuditScope) : List Act → AuditScope
  | [] => current
  | .describe resourceId before after permission :: acts =>
      describedBy { current with
        resourceId := resourceId <|> current.resourceId
        before := before <|> current.before
        after := after <|> current.after
        permission := permission <|> current.permission } acts
  | _ :: acts => describedBy current acts

/-- What is remembered at the end. -/
def remembered (store : List (String × Json.Value)) : List Act → List (String × Json.Value)
  | [] => store
  | .ask key value :: acts =>
      remembered (if (store.lookup key).isSome then store else (key, value) :: store) acts
  | _ :: acts => remembered store acts

/-- The answers of `cached`. -/
def answersBy (store : List (String × Json.Value)) : List Act → List Json.Value
  | [] => []
  | .ask key value :: acts =>
      match store.lookup key with
      | some known => known :: answersBy store acts
      | none => value :: answersBy ((key, value) :: store) acts
  | _ :: acts => answersBy store acts

/-- A message with the id of its request. -/
def identified (r : Request) : Message → Message
  | .start status headers => .start status (withRequestId r headers)
  | m => m

def Act.message? (r : Request) : Act → Option Message
  | .send m => some (identified r m)
  | _ => none

/-- What is sent. -/
def sentBy (r : Request) (acts : List Act) : List Message := acts.filterMap (Act.message? r)

/-- How the messages of the application come to the server. -/
def layered (r : Request) : Send := watchStatus (sendWithRequestId r transmit)

/-- The application changes the context as its acts say, and what it sends is counted by both
layers. -/
theorem acts_ran (r : Request) (acts : List Act) (tenant : Option Uuid) (bound : Option String)
    (current : AuditScope) (store : List (String × Json.Value)) (wire : List Message)
    (logs : List AccessLog) (rows : List AuditRow) (answers : List Json.Value)
    (logStatus auditStatus : ℕ) (operation : Option String)
    (pathParams : List (String × Option Uuid)) (principal : Option Uuid) :
  acts.foldl (fun (s : Run) a => s.act (layered r) a)
      (Run.mk ⟨⟨tenant, bound, some current, some store⟩, wire, logs, rows, answers⟩ logStatus
        auditStatus operation pathParams principal) =
    ⟨⟨⟨lastOf Act.tenant? tenant acts, bound, some (describedBy current acts),
        some (remembered store acts)⟩, wire ++ sentBy r acts, logs, rows,
        answers ++ answersBy store acts⟩, lastOf Act.status? logStatus acts,
      lastOf Act.status? auditStatus acts, lastOf Act.operation? operation acts,
      lastOf Act.pathParams? pathParams acts, lastOf Act.user? principal acts⟩
  := by
  induction acts generalizing tenant current store wire answers logStatus auditStatus operation
    pathParams principal with
  | nil =>
    show _ = Run.mk ⟨_, wire ++ [], _, _, answers ++ []⟩ _ _ _ _ _
    rw [List.append_nil, List.append_nil]
    rfl
  | cons a acts ih =>
    rw [List.foldl_cons]
    cases a with
    | send m =>
      cases m with
      | start status headers =>
        refine (ih ..).trans ?_
        rw [List.append_assoc]
        rfl
      | body content =>
        refine (ih ..).trans ?_
        rw [List.append_assoc]
        rfl
      | problem p =>
        refine (ih ..).trans ?_
        rw [List.append_assoc]
        rfl
    | route operation pathParams => exact ih ..
    | authenticate tenantId userId => exact ih ..
    | describe resourceId before after permission => exact ih ..
    | ask key value =>
      unfold Run.act Run.ask
      simp only [Run.ctx]
      unfold remembered answersBy
      cases known : store.lookup key with
      | some v =>
        refine (ih ..).trans ?_
        rw [List.append_assoc]
        rfl
      | none =>
        refine (ih ..).trans ?_
        rw [List.append_assoc]
        rfl

/-! ### The effect of a request -/

/-- How far a request comes. -/
inductive Gate where
  | application
  | refused (p : Problem) (headers : List Header)
  | cancelled

/-- The decisions of the two limits. -/
def gate (cfg : Settings) (r : Request) (verdict : RateLimit.Verdict) : Gate :=
  let body : Gate := if tooLarge r.headers then .refused (tooLargeProblem r) [] else .application
  if RateLimit.limited cfg.rate (rateScope r) then
    match verdict with
    | .within _ | .unavailable _ => body
    | .over _ =>
        .refused (rateLimitedProblem r cfg)
          [(retryAfterHeader, encode (toString cfg.retryAfterSeconds))]
    | .cancelled _ => .cancelled
  else body

/-- The tenant that has authenticated last. -/
def tenantOf (acts : List Act) : Option Uuid := lastOf Act.tenant? none acts

/-- The status of the last response that has been started. -/
def statusOf (acts : List Act) : ℕ := lastOf Act.status? 500 acts

def operationOf (acts : List Act) : Option String := lastOf Act.operation? none acts

/-- The status that is logged and recorded. -/
def Course.status (c : Course) : ℕ :=
  match c.ending with
  | .returned => statusOf c.acts
  | _ => 500

/-- A row is due for the request, to its tenant. -/
def due (r : Request) (c : Course) : Option Uuid :=
  if c.ending = .cancelled ∨ !writeMethods.contains r.method ∨ exempt (operationOf c.acts) then none
  else tenantOf c.acts

/-- The row of a request. -/
def rowOf (r : Request) (c : Course) (tenantId : Uuid) : AuditRow :=
  let spec := auditSpec (operationOf c.acts)
  let principal := lastOf Act.user? none c.acts
  let described := describedBy (opened r) c.acts
  { tenantId := tenantId
    action := spec.action
    resourceType := spec.resourceType
    outcome := outcomeOf c.status
    requestId := described.requestId
    actorId := principal
    actorType := if principal.isSome then "user" else "system"
    resourceId := described.resourceId <|> pathResourceId (lastOf Act.pathParams? [] c.acts) spec
    before := described.before
    after := described.after
    status := c.status
    permission := described.permission
    ip := described.ip
    userAgent := described.userAgent }

/-- How the request ends: its recording may be cancelled. -/
def finalOf (r : Request) (c : Course) : Outcome :=
  if (due r c).isSome && c.recording.cancelled then .cancelled else c.ending

/-- What a request adds to the world. -/
def effect (cfg : Settings) : Request × Course → World
  | (r, c) =>
    match gate cfg r c.verdict with
    | .cancelled => {}
    | .refused p headers =>
        match c.stopped with
        | none =>
            { wire := problemResponse p headers
              logs := [⟨some r.requestId, none, r.method, r.path, p.status⟩] }
        | some n => { wire := (problemResponse p headers).take n }
    | .application =>
        { wire := sentBy r c.acts
          answers := answersBy [] c.acts
          rows := if c.recording.stored then (due r c).toList.map (rowOf r c) else []
          logs := if finalOf r c = .cancelled then []
            else [⟨some r.requestId, tenantOf c.acts, r.method, r.path, c.status⟩] }

/-- The world with what is added to it. -/
def World.add (w e : World) : World where
  ctx := w.ctx
  wire := w.wire ++ e.wire
  logs := w.logs ++ e.logs
  rows := w.rows ++ e.rows
  answers := w.answers ++ e.answers

theorem add_empty (w : World) : w.add {} = w := by
  unfold World.add
  simp only [List.append_nil]

/-- A response with its own id is sent as it is. -/
theorem transmit_problem (r : Request) (s : Run) (p : Problem) (headers : List Header) (n : ℕ) :
  ((problemResponse p headers).take n).foldl (fun s m => sendWithRequestId r transmit m s) s =
    { s with
      world := { s.world with wire := s.world.wire ++ (problemResponse p headers).take n }
      logStatus := if n = 0 then s.logStatus else p.status }
  := by
  have kept : withRequestId r (headers ++ [(requestIdHeader, encode p.requestId)]) =
      headers ++ [(requestIdHeader, encode p.requestId)] := by
    unfold withRequestId
    rw [List.any_append, if_pos]
    exact Bool.or_eq_true_iff.mpr (.inr (by rfl))
  unfold problemResponse
  cases n with
  | zero =>
    show s = _
    simp only [List.take_zero, List.append_nil, if_true]
  | succ n =>
    cases n with
    | zero =>
      simp only [List.take, List.foldl_cons, List.foldl_nil, sendWithRequestId, kept, transmit]
      rfl
    | succ n =>
      simp only [List.take, List.take_nil, List.foldl_cons, List.foldl_nil, sendWithRequestId, kept,
        transmit, List.append_assoc]
      rfl

/-- What is below the context of the request, by the decisions of the two limits. -/
theorem limits_eq (cfg : Settings) (r : Request) (c : Course) (app : App) (send : Send) (s : Run) :
  rateLimitMiddleware r cfg c.verdict c.stopped (bodySizeLimitMiddleware r c.stopped app) send s =
    match gate cfg r c.verdict with
    | .application => app send s
    | .refused p headers => refuse c.stopped (problemResponse p headers) send s
    | .cancelled => (s, .cancelled)
  := by
  unfold rateLimitMiddleware bodySizeLimitMiddleware gate
  cases RateLimit.limited cfg.rate (rateScope r)
  · cases tooLarge r.headers
    · rfl
    · rfl
  · cases c.verdict
    all_goals
      cases tooLarge r.headers
      · rfl
      · rfl

/-- The run when the layers above the audit have been entered. -/
def entered (r : Request) (wire : List Message) (logs : List AccessLog) (rows : List AuditRow)
    (answers : List Json.Value) : Run where
  world := ⟨⟨none, some r.requestId, none, some []⟩, wire, logs, rows, answers⟩

/-- The run when the application is over, with a status for the audit. -/
def ran (r : Request) (c : Course) (wire : List Message) (logs : List AccessLog)
    (rows : List AuditRow) (answers : List Json.Value) : Run where
  world := ⟨⟨tenantOf c.acts, some r.requestId, some (describedBy (opened r) c.acts),
      some (remembered [] c.acts)⟩, wire ++ sentBy r c.acts, logs, rows,
    answers ++ answersBy [] c.acts⟩
  logStatus := statusOf c.acts
  auditStatus := statusOf c.acts
  operation := operationOf c.acts
  pathParams := lastOf Act.pathParams? [] c.acts
  principal := lastOf Act.user? none c.acts

/-- The row that is due is written, if the database stores it. -/
theorem record_eq (r : Request) (c : Course) (uncut : c.ending ≠ .cancelled) (wire : List Message)
    (logs : List AccessLog) (rows : List AuditRow) (answers : List Json.Value) :
  record r c.recording (describedBy (opened r) c.acts) c.status (ran r c wire logs rows answers) =
    (ran r c wire logs
        (rows ++ if c.recording.stored then (due r c).toList.map (rowOf r c) else []) answers,
      (due r c).isSome && c.recording.cancelled)
  := by
  have operation : (ran r c wire logs rows answers).operation = operationOf c.acts := rfl
  have tenant : (ran r c wire logs rows answers).ctx.tenant = tenantOf c.acts := rfl
  unfold record due
  rw [operation, tenant]
  by_cases silent : (!writeMethods.contains r.method || exempt (operationOf c.acts)) = true
  · have none : c.ending = .cancelled ∨ (!writeMethods.contains r.method) = true ∨
        exempt (operationOf c.acts) = true := .inr (Bool.or_eq_true_iff.mp silent)
    rw [if_pos silent, if_pos none]
    simp only [Option.toList_none, List.map_nil, ite_self, List.append_nil, Option.isSome_none,
      Bool.false_and]
  · have some' : ¬ (c.ending = .cancelled ∨ (!writeMethods.contains r.method) = true ∨
        exempt (operationOf c.acts) = true) := by
      rintro (done | rest)
      · exact uncut done
      · exact silent (Bool.or_eq_true_iff.mpr rest)
    rw [if_neg silent, if_neg some']
    cases tenant' : tenantOf c.acts with
    | none =>
      simp only [Option.toList_none, List.map_nil, ite_self, List.append_nil, Option.isSome_none,
        Bool.false_and]
    | some tenantId =>
      cases stored : c.recording.stored with
      | false =>
        simp only [Bool.false_eq_true, if_false, List.append_nil]
        rfl
      | true => rfl

theorem audit_eq (r : Request) (c : Course) (wire : List Message) (logs : List AccessLog)
    (rows : List AuditRow) (answers : List Json.Value) :
  auditMiddleware r c.recording (application c.acts c.ending) (sendWithRequestId r transmit)
      (entered r wire logs rows answers) =
    ((ran r c wire logs
        (rows ++ if c.recording.stored then (due r c).toList.map (rowOf r c) else [])
        answers).setCtx ⟨tenantOf c.acts, some r.requestId, none, some (remembered [] c.acts)⟩,
      finalOf r c)
  := by
  have whole : application c.acts c.ending (watchStatus (sendWithRequestId r transmit))
      { (entered r wire logs rows answers).setCtx
          { (entered r wire logs rows answers).ctx with audit := some (opened r) } with
        auditStatus := 500 } = (ran r c wire logs rows answers, c.ending) := by
    refine Prod.ext ?_ rfl
    exact acts_ran r c.acts none (some r.requestId) (opened r) [] wire logs rows answers 500 500 none
      [] none
  unfold auditMiddleware
  rw [whole]
  have final : ∀ status, c.status = status → c.ending ≠ .cancelled →
      recordEnd r c.recording status (ran r c wire logs rows answers) c.ending =
        (ran r c wire logs
          (rows ++ if c.recording.stored then (due r c).toList.map (rowOf r c) else []) answers,
          finalOf r c) := by
    rintro _ rfl open'
    unfold recordEnd
    have current : ((ran r c wire logs rows answers).ctx.audit.getD (opened r)) =
        describedBy (opened r) c.acts := rfl
    rw [current, record_eq r c open']
    rfl
  have status : ∀ ending, c.ending = ending → c.status =
      match ending with
      | .returned => statusOf c.acts
      | _ => 500 := by
    rintro _ rfl
    rfl
  cases ending : c.ending with
  | cancelled =>
    have nothing : due r c = none := if_pos (.inl ending)
    unfold finalOf
    rw [nothing, ending]
    simp only [Option.toList_none, List.map_nil, ite_self, List.append_nil, Option.isSome_none,
      Bool.false_and, Bool.false_eq_true]
    rfl
  | raised =>
    have done := final 500 (status _ ending) (by rw [ending]; decide)
    rw [ending] at done
    simp only [done]
    rfl
  | returned =>
    have done := final (statusOf c.acts) (status _ ending) (by rw [ending]; decide)
    rw [ending] at done
    have seen : (ran r c wire logs rows answers).auditStatus = statusOf c.acts := rfl
    simp only [seen, done]
    rfl

/-- A refusal is sent as far as the request is not cancelled. -/
theorem refuse_eq {r : Request} {stopped : Option ℕ} {p : Problem} {headers : List Header}
    {s : Run} :
  refuse stopped (problemResponse p headers) (sendWithRequestId r transmit) s =
    match stopped with
    | none =>
        ({ s with
            world := { s.world with wire := s.world.wire ++ problemResponse p headers }
            logStatus := p.status }, .returned)
    | some n =>
        ({ s with
            world := { s.world with wire := s.world.wire ++ (problemResponse p headers).take n }
            logStatus := if n = 0 then s.logStatus else p.status }, .cancelled)
  := by
  unfold refuse
  cases stopped with
  | none =>
    have whole : (problemResponse p headers).take 2 = problemResponse p headers := rfl
    have sent := transmit_problem r s p headers 2
    rw [whole] at sent
    exact congrArg (·, Outcome.returned) sent
  | some n => exact congrArg (·, Outcome.cancelled) (transmit_problem r s p headers n)

/-- A request does to a world with a clean context what it does alone, and leaves it clean. -/
theorem handle_eq (cfg : Settings) (w : World) (x : Request × Course) (clean : w.ctx = {}) :
  handle cfg w x = w.add (effect cfg x)
  := by
  obtain ⟨r, c⟩ := x
  obtain ⟨_, wire, logs, rows, answers⟩ := w
  subst clean
  have enter : enterContext r { world := ⟨{}, wire, logs, rows, answers⟩ } =
      entered r wire logs rows answers := rfl
  unfold handle stack requestContextMiddleware effect
  simp only [enter, limits_eq]
  cases gate cfg r c.verdict with
  | cancelled => exact (add_empty _).symm
  | refused p headers =>
    simp only [refuse_eq]
    cases c.stopped with
    | none =>
      unfold World.add
      simp only [List.append_nil]
      rfl
    | some n =>
      unfold World.add
      simp only [List.append_nil]
      rfl
  | application =>
    simp only [audit_eq]
    have ending : finalOf r c = .cancelled ∨ finalOf r c = c.ending := by
      unfold finalOf
      split
      · exact .inl rfl
      · exact .inr rfl
    unfold World.add
    cases final : finalOf r c with
    | cancelled =>
      simp only [if_true, List.append_nil]
      rfl
    | raised =>
      have raised : c.ending = .raised := by
        cases ending with
        | inl cut => cases final.symm.trans cut
        | inr same => exact same.symm.trans final
      have status : c.status = 500 := by
        unfold Course.status
        rw [raised]
      rw [if_neg (show ¬ Outcome.raised = .cancelled by decide), status]
      rfl
    | returned =>
      have returned : c.ending = .returned := by
        cases ending with
        | inl cut => cases final.symm.trans cut
        | inr same => exact same.symm.trans final
      have status : c.status = statusOf c.acts := by
        unfold Course.status
        rw [returned]
      rw [if_neg (show ¬ Outcome.returned = .cancelled by decide), status]
      rfl

/-- What requests add to the world. -/
def effects (cfg : Settings) (requests : List (Request × Course)) : World where
  wire := requests.flatMap fun x => (effect cfg x).wire
  logs := requests.flatMap fun x => (effect cfg x).logs
  rows := requests.flatMap fun x => (effect cfg x).rows
  answers := requests.flatMap fun x => (effect cfg x).answers

/-- Requests that are served one after another in one context do what each does alone: no tenant, id
of a request, description or remembered value of one comes to another, however they end. -/
theorem serve_eq (cfg : Settings) (requests : List (Request × Course)) {w : World}
    (clean : w.ctx = {}) :
  serve cfg requests w = w.add (effects cfg requests)
  := by
  induction requests generalizing w with
  | nil => exact (add_empty w).symm
  | cons x requests ih =>
    have one := handle_eq cfg w x clean
    have clean' : (handle cfg w x).ctx = {} := by
      rw [one]
      exact clean
    refine (ih clean').trans ?_
    rw [one]
    unfold World.add effects
    simp only [List.flatMap_cons, List.append_assoc]

theorem serve_eq_sample :
  serve {} [(⟨"POST", "/api/v1/users", [], none, "a"⟩,
        { verdict := .within 1
          acts := [.route (some "users_create") [], .authenticate 7 8] }),
      (⟨"POST", "/api/v1/auth/login", [], none, "b"⟩,
        { verdict := .within 1
          acts := [.route (some "users_create") []]
          ending := .raised })] {} =
    World.add {} (effects {} [(⟨"POST", "/api/v1/users", [], none, "a"⟩,
        { verdict := .within 1
          acts := [.route (some "users_create") [], .authenticate 7 8] }),
      (⟨"POST", "/api/v1/auth/login", [], none, "b"⟩,
        { verdict := .within 1
          acts := [.route (some "users_create") []]
          ending := .raised })])
  := serve_eq {} _ rfl

/-! ### The audit trail -/

/-- The request is one that leaves a row. -/
structure Recorded (cfg : Settings) (r : Request) (c : Course) : Prop where
  passed : gate cfg r c.verdict = .application
  ended : c.ending ≠ .cancelled
  writes : r.method ∈ writeMethods
  declared : exempt (operationOf c.acts) = false
  authenticated : (tenantOf c.acts).isSome
  stored : c.recording.stored = true

theorem describedBy_requestId (current : AuditScope) (acts : List Act) :
  (describedBy current acts).requestId = current.requestId
  := by
  induction acts generalizing current with
  | nil => rfl
  | cons a acts ih =>
    cases a with
    | describe resourceId before after permission => exact ih _
    | _ => exact ih current

theorem rowOf_requestId (r : Request) (c : Course) (tenantId : Uuid) :
  (rowOf r c tenantId).requestId = r.requestId
  := describedBy_requestId (opened r) c.acts

theorem mem_effect_rows {cfg : Settings} {r : Request} {c : Course} {row : AuditRow} :
  row ∈ (effect cfg (r, c)).rows ↔
    gate cfg r c.verdict = .application ∧ c.recording.stored = true ∧
      ∃ tenantId, due r c = some tenantId ∧ rowOf r c tenantId = row
  := by
  unfold effect
  simp only
  cases gate cfg r c.verdict with
  | cancelled => exact iff_of_false List.not_mem_nil fun h => nomatch h.1
  | refused p headers =>
    refine iff_of_false ?_ fun h => nomatch h.1
    cases c.stopped with
    | none => exact List.not_mem_nil
    | some n => exact List.not_mem_nil
  | application =>
    cases c.recording.stored with
    | false => exact iff_of_false List.not_mem_nil fun h => nomatch h.2.1
    | true =>
      simp only [if_true, List.mem_map, Option.mem_toList, true_and]

theorem mem_effect_logs {cfg : Settings} {r : Request} {c : Course} {log : AccessLog}
    (mem : log ∈ (effect cfg (r, c)).logs) :
  log.requestId = some r.requestId ∧
    (gate cfg r c.verdict = .application →
      log = ⟨some r.requestId, tenantOf c.acts, r.method, r.path, c.status⟩)
  := by
  unfold effect at mem
  simp only at mem
  generalize gate cfg r c.verdict = decision at mem ⊢
  generalize c.stopped = stopped at mem
  cases decision with
  | cancelled => exact (List.not_mem_nil mem).elim
  | refused p headers =>
    cases stopped with
    | none =>
      rw [List.mem_singleton.mp mem]
      exact ⟨rfl, nofun⟩
    | some n => exact (List.not_mem_nil mem).elim
  | application =>
    simp only at mem
    split at mem
    · exact (List.not_mem_nil mem).elim
    · rw [List.mem_singleton.mp mem]
      exact ⟨rfl, fun _ => rfl⟩

/-- A row or a log with the id of a request comes from it. -/
theorem effect_requestId {cfg : Settings} {x : Request × Course} :
  (∀ row ∈ (effect cfg x).rows, row.requestId = x.1.requestId) ∧
    ∀ log ∈ (effect cfg x).logs, log.requestId = some x.1.requestId
  := by
  constructor
  · intro row mem
    obtain ⟨-, -, tenantId, -, rfl⟩ := mem_effect_rows.mp mem
    exact rowOf_requestId x.1 x.2 tenantId
  · intro log mem
    exact (mem_effect_logs mem).1

/-- What has the id of a request comes from it. -/
theorem mem_flatMap_of_tag {α β κ : Type} (f : α → List β) (key : α → κ) (tag : β → κ)
    (tagged : ∀ x, ∀ y ∈ f x, tag y = key x) {xs : List α} (distinct : (xs.map key).Nodup) {x : α}
    (mem : x ∈ xs) {y : β} (same : tag y = key x) :
  y ∈ xs.flatMap f ↔ y ∈ f x
  := by
  rw [List.mem_flatMap]
  constructor
  · rintro ⟨x', mem', inside⟩
    have keys : key x' = key x := (tagged x' y inside).symm.trans same
    rw [← List.inj_on_of_nodup_map distinct mem' mem keys]
    exact inside
  · intro inside
    exact ⟨x, mem, inside⟩

theorem due_eq_some {r : Request} {c : Course} {tenantId : Uuid} (h : due r c = some tenantId) :
  c.ending ≠ .cancelled ∧ r.method ∈ writeMethods ∧ exempt (operationOf c.acts) = false ∧
    tenantOf c.acts = some tenantId
  := by
  unfold due at h
  split at h
  · cases h
  · case isFalse open' =>
    simp only [not_or, Bool.not_eq_true, Bool.not_eq_false', List.contains_iff_mem] at open'
    exact ⟨open'.1, open'.2.1, open'.2.2, h⟩

theorem due_of_recorded {cfg : Settings} {r : Request} {c : Course} (h : Recorded cfg r c) :
  due r c = tenantOf c.acts
  := by
  refine if_neg ?_
  rintro (cut | silent | quiet)
  · exact h.ended cut
  · rw [List.contains_iff_mem.mpr h.writes] at silent
    cases silent
  · rw [h.declared] at quiet
    cases quiet

/-- Of all requests that are served, those that write under a tenant and are over leave a row, unless
they are exempt or the database fails; and no other leaves one. -/
theorem recorded_iff {cfg : Settings} {requests : List (Request × Course)}
    (distinct : (requests.map fun x => x.1.requestId).Nodup) {r : Request} {c : Course}
    (mem : (r, c) ∈ requests) :
  (∃ row ∈ (serve cfg requests {}).rows, row.requestId = r.requestId) ↔ Recorded cfg r c
  := by
  have own : ∀ row : AuditRow, row.requestId = r.requestId →
      (row ∈ (serve cfg requests {}).rows ↔ row ∈ (effect cfg (r, c)).rows) := by
    intro row same
    rw [serve_eq cfg requests rfl]
    exact mem_flatMap_of_tag (fun x => (effect cfg x).rows) (fun x => x.1.requestId)
      AuditRow.requestId (fun _ => effect_requestId.1) distinct mem same
  constructor
  · rintro ⟨row, there, same⟩
    obtain ⟨passed, stored, tenantId, due', -⟩ := mem_effect_rows.mp ((own row same).mp there)
    obtain ⟨ended, writes, declared, tenant⟩ := due_eq_some due'
    exact ⟨passed, ended, writes, declared, Option.isSome_iff_exists.mpr ⟨_, tenant⟩, stored⟩
  · intro h
    obtain ⟨tenantId, tenant⟩ := Option.isSome_iff_exists.mp h.authenticated
    have same := rowOf_requestId r c tenantId
    refine ⟨rowOf r c tenantId, (own _ same).mpr (mem_effect_rows.mpr ?_), same⟩
    exact ⟨h.passed, h.stored, tenantId, (due_of_recorded h).trans tenant, rfl⟩

theorem recorded_iff_sample :
  (∃ row ∈ (serve {} [(⟨"POST", "/api/v1/users", [], none, "a"⟩,
      { verdict := .within 1
        acts := [.route (some "users_create") [], .authenticate 7 8] })] {}).rows,
      row.requestId = "a") ↔
    Recorded {} ⟨"POST", "/api/v1/users", [], none, "a"⟩
      { verdict := .within 1
        acts := [.route (some "users_create") [], .authenticate 7 8] }
  := recorded_iff (by decide) (List.mem_singleton.mpr rfl)

/-- A row and a log with the same id tell the same of the request: its tenant, and its status. -/
theorem row_agrees_with_log {cfg : Settings} {requests : List (Request × Course)}
    (distinct : (requests.map fun x => x.1.requestId).Nodup) {row : AuditRow} {log : AccessLog}
    (row_mem : row ∈ (serve cfg requests {}).rows) (log_mem : log ∈ (serve cfg requests {}).logs)
    (same : log.requestId = some row.requestId) :
  log.tenantId = some row.tenantId ∧ log.status = row.status ∧ log.method ∈ writeMethods
  := by
  rw [serve_eq cfg requests rfl] at row_mem log_mem
  obtain ⟨⟨r, c⟩, mem, there⟩ := List.mem_flatMap.mp row_mem
  obtain ⟨passed, -, tenantId, due', rfl⟩ := mem_effect_rows.mp there
  obtain ⟨-, writes, -, tenant⟩ := due_eq_some due'
  have own : log ∈ (effect cfg (r, c)).logs := by
    refine (mem_flatMap_of_tag (fun x => (effect cfg x).logs) (fun x => some x.1.requestId)
      AccessLog.requestId (fun _ => effect_requestId.2) ?_ mem ?_).mp log_mem
    · have keys : requests.map (fun x => some x.1.requestId) =
          (requests.map fun x => x.1.requestId).map some := by
        rw [List.map_map]
        rfl
      rw [keys]
      exact distinct.map (Option.some_injective _)
    · rw [same, rowOf_requestId]
  rw [(mem_effect_logs own).2 passed]
  exact ⟨tenant, rfl, writes⟩

theorem row_agrees_with_log_sample :
  (AccessLog.mk (some "a") (some 7) "POST" "/api/v1/users" 201).tenantId =
      some (rowOf ⟨"POST", "/api/v1/users", [], none, "a"⟩
        { verdict := .within 1
          acts := [.authenticate 7 8, .send (.start 201 [])] } 7).tenantId ∧
    (AccessLog.mk (some "a") (some 7) "POST" "/api/v1/users" 201).status =
      (rowOf ⟨"POST", "/api/v1/users", [], none, "a"⟩
        { verdict := .within 1
          acts := [.authenticate 7 8, .send (.start 201 [])] } 7).status ∧
    (AccessLog.mk (some "a") (some 7) "POST" "/api/v1/users" 201).method ∈ writeMethods
  := by
  refine @row_agrees_with_log {} [(⟨"POST", "/api/v1/users", [], none, "a"⟩,
    { verdict := .within 1
      acts := [.authenticate 7 8, .send (.start 201 [])] })] (by decide) _ _ ?_ ?_ rfl
  · rw [serve_eq {} _ rfl]
    refine List.mem_flatMap.mpr ⟨_, List.mem_singleton.mpr rfl, mem_effect_rows.mpr ?_⟩
    exact ⟨rfl, rfl, 7, rfl, rfl⟩
  · rw [serve_eq {} _ rfl]
    exact List.mem_flatMap.mpr ⟨_, List.mem_singleton.mpr rfl, List.mem_singleton.mpr rfl⟩

end Lumina.Api.Lifecycle
