import Lumina.Etl.Text
import Lumina.Library.Counters
import Lumina.Library.Transition

/-!
# RateLimitMiddleware

Any number of requests are under way at the same time, in any number of processes.  A request that is
limited reads the clock of its process, increments the counter of its window at the key-value server,
and sets the expiry of a counter that it has made.  A command may fail, and the request may be
cancelled while it waits for one; in both cases the server may have executed the command.

Moments are in milliseconds.  The keys are kept as their parts: the number of the window is what
follows the last colon of a key string, so that the string determines them.
-/

namespace Lumina.Api.RateLimit

open Transition

/-- The two buckets of requests. -/
inductive Bucket where
  | auth
  | api
deriving DecidableEq, Repr

structure Settings where
  rateLimitEnabled : Bool := true
  rateLimitPerMinute : ℤ := 300
  rateLimitAuthPerMinute : ℤ := 20
  rateLimitTrustProxyHeaders : Bool := false

/-- What the middleware reads of the scope of a request.  `client` is the host of the peer, if there
is one. -/
structure Scope where
  isHttp : Bool := true
  path : String
  headers : List (List UInt8 × List UInt8) := []
  client : Option String
deriving DecidableEq, Repr

/-! ### The source of a request -/

/-- `bytes.lower` -/
def lower (bytes : List UInt8) : List UInt8 :=
  bytes.map fun b => if 65 ≤ b ∧ b ≤ 90 then b + 32 else b

/-- The text of bytes in Latin-1. -/
def decodeLatin1 (bytes : List UInt8) : Etl.Text :=
  bytes.map fun b => Char.ofNat b.toNat

/-- `x-forwarded-for` -/
def forwardedFor : List UInt8 :=
  [120, 45, 102, 111, 114, 119, 97, 114, 100, 101, 100, 45, 102, 111, 114]

/-- The first address in the value of a header. -/
def firstAddress (value : List UInt8) : Etl.Text :=
  Etl.strip ((decodeLatin1 value).takeWhile (· ≠ ','))

/-- The first address that a proxy names. -/
def forwarded (headers : List (List UInt8 × List UInt8)) : Option Etl.Text :=
  headers.findSome? fun (name, value) =>
    if lower name = forwardedFor ∧ firstAddress value ≠ [] then some (firstAddress value) else none

/-- The host of a peer. -/
def peer (client : Option String) : Etl.Text :=
  match client with
  | some host => if host = "" then "unknown".toList else host.toList
  | none => "unknown".toList

/-- `_client_ip` -/
def clientIp (scope : Scope) (trustProxy : Bool) : Etl.Text :=
  match if trustProxy then forwarded scope.headers else none with
  | some address => address
  | none => peer scope.client

/-! ### The decision -/

/-- `_EXEMPT_PATHS` -/
def exemptPaths : List String := ["/healthz", "/readyz"]

/-- `_AUTH_PREFIX` -/
def authPrefix : String := "/api/v1/auth"

def bucketOf (path : String) : Bucket :=
  if authPrefix.toList.isPrefixOf path.toList then .auth else .api

def limitOf (cfg : Settings) : Bucket → ℤ
  | .auth => cfg.rateLimitAuthPerMinute
  | .api => cfg.rateLimitPerMinute

/-- The request is counted. -/
def limited (cfg : Settings) (scope : Scope) : Bool :=
  scope.isHttp && cfg.rateLimitEnabled && !exemptPaths.contains scope.path &&
    decide (0 < limitOf cfg (bucketOf scope.path))

/-- The length of a window. -/
def windowMs : ℕ := 60000

/-- The expiry of a counter. -/
def ttlMs : ℕ := 121000

/-- The parts of a key: `rl:{bucket}:{client_ip}:{window}`. -/
structure Key where
  bucket : Bucket
  clientIp : Etl.Text
  window : ℕ
deriving DecidableEq

/-- A limited request, with its reading of the clock. -/
structure Asked where
  scope : Scope
  reading : ℕ
deriving DecidableEq

def Asked.key (cfg : Settings) (a : Asked) : Key where
  bucket := bucketOf a.scope.path
  clientIp := Lumina.Api.RateLimit.clientIp a.scope cfg.rateLimitTrustProxyHeaders
  window := a.reading / windowMs

/-- What has become of a limited request.  The number that the server has given it is a ghost where
the process does not know it. -/
inductive Verdict where
  /-- The request is passed on, since its number is within the limit. -/
  | within (used : ℤ)
  /-- The request is answered with 429. -/
  | over (used : ℤ)
  /-- The request is passed on, since the server is not available. -/
  | unavailable (used : Option ℤ)
  /-- The request has been cancelled. -/
  | cancelled (used : Option ℤ)
deriving DecidableEq

def Verdict.used : Verdict → Option ℤ
  | .within n => some n
  | .over n => some n
  | .unavailable n => n
  | .cancelled n => n

/-- `used <= limit` -/
def verdict (limit used : ℤ) : Verdict :=
  if used ≤ limit then .within used else .over used

/-- How far a request has come. -/
inductive Phase where
  | absent
  /-- The request is passed on without being counted. -/
  | free (scope : Scope)
  /-- `INCR` is next. -/
  | counting (a : Asked)
  /-- `EXPIRE` is next, for the request that was given the number one. -/
  | expiring (a : Asked)
  | decided (a : Asked) (v : Verdict)
deriving DecidableEq

/-- The key of a request and the number that it has been given. -/
def Phase.given (cfg : Settings) : Phase → Option (Key × ℤ)
  | .expiring a => some (a.key cfg, 1)
  | .decided a v => v.used.map fun n => (a.key cfg, n)
  | _ => none

/-- What interrupts a request that waits for the server. -/
inductive Fault where
  | error
  | cancelled
deriving DecidableEq, Repr

def Fault.verdict (fault : Fault) (used : Option ℤ) : Verdict :=
  match fault with
  | .error => .unavailable used
  | .cancelled => .cancelled used

/-- The clock and the counters of the server, and the requests. -/
structure State where
  now : ℕ
  keys : Counters Key := fun _ => none
  requests : ℕ → Phase := fun _ => .absent

inductive Action where
  | elapse (ms : ℕ)
  /-- A request arrives, and the clock of its process is read. -/
  | enter (r : ℕ) (scope : Scope) (reading : ℕ)
  /-- The request gets the answer to its next command. -/
  | command (r : ℕ)
  /-- The request does not get the answer to its next command, which may be executed. -/
  | fail (r : ℕ) (fault : Fault) (executed : Bool)
deriving DecidableEq, Repr

namespace State

variable (cfg : Settings) (s : State)

def put (r : ℕ) (p : Phase) : State :=
  { s with requests := Function.update s.requests r p }

/-- The answer to `INCR`. -/
def nextUsed (a : Asked) : ℤ := s.keys.count s.now (a.key cfg) + 1

/-- `INCR` is executed. -/
def incr (a : Asked) : State :=
  { s with keys := s.keys.incrBy s.now (a.key cfg) 1 }

/-- `EXPIRE` is executed. -/
def expire (a : Asked) : State :=
  { s with keys := s.keys.expire s.now (a.key cfg) ttlMs }

end State

/-- `_within`, after the answer to `INCR`. -/
def afterIncr (cfg : Settings) (a : Asked) (used : ℤ) : Phase :=
  if used = 1 then .expiring a
  else .decided a (verdict (limitOf cfg (bucketOf a.scope.path)) used)

def step (cfg : Settings) : Action → State → Option State
  | .elapse ms, s => some { s with now := s.now + ms }
  | .enter r scope reading, s =>
      if s.requests r = .absent then
        some (s.put r (if limited cfg scope then .counting ⟨scope, reading⟩ else .free scope))
      else none
  | .command r, s =>
      match s.requests r with
      | .counting a => some ((s.incr cfg a).put r (afterIncr cfg a (s.nextUsed cfg a)))
      | .expiring a =>
          some ((s.expire cfg a).put r
            (.decided a (verdict (limitOf cfg (bucketOf a.scope.path)) 1)))
      | _ => none
  | .fail r fault executed, s =>
      match s.requests r with
      | .counting a =>
          if executed then
            some ((s.incr cfg a).put r (.decided a (fault.verdict (some (s.nextUsed cfg a)))))
          else some (s.put r (.decided a (fault.verdict none)))
      | .expiring a =>
          some ((if executed then s.expire cfg a else s).put r
            (.decided a (fault.verdict (some 1))))
      | _ => none

/-- The requests, and the server without a counter at first. -/
def machine (cfg : Settings) : Machine State Action where
  init s := (s.keys = fun _ => none) ∧ s.requests = fun _ => .absent
  step := step cfg

variable {cfg : Settings}

/-! ### What a step does -/

/-- The numbers that the requests have been given. -/
def State.given (cfg : Settings) (s : State) (r : ℕ) : Option (Key × ℤ) :=
  (s.requests r).given cfg

theorem State.given_put (s : State) (r : ℕ) (p : Phase) :
  (s.put r p).given cfg = Function.update (s.given cfg) r (p.given cfg)
  := by
  funext r'
  by_cases same : r' = r
  · subst same
    rw [Function.update_self]
    simp only [State.given, State.put, Function.update_self]
  · rw [Function.update_of_ne same]
    simp only [State.given, State.put, Function.update_of_ne same]

/-- A request is judged by its number. -/
def Verdict.Just (limit : ℤ) : Verdict → Prop
  | .within n => n ≤ limit
  | .over n => limit < n
  | _ => True

def Phase.Just (cfg : Settings) : Phase → Prop
  | .decided a v => v.Just (limitOf cfg (bucketOf a.scope.path))
  | _ => True

theorem just_verdict (limit used : ℤ) :
  (verdict limit used).Just limit ∧ (verdict limit used).used = some used
  := by
  unfold verdict
  split
  · case isTrue le => exact ⟨le, rfl⟩
  · case isFalse gt => exact ⟨Int.not_le.mp gt, rfl⟩

theorem just_fault (fault : Fault) (limit : ℤ) (used : Option ℤ) :
  (fault.verdict used).Just limit ∧ (fault.verdict used).used = used
  := by
  cases fault
  all_goals exact ⟨trivial, rfl⟩

theorem just_afterIncr (cfg : Settings) (a : Asked) (used : ℤ) :
  (afterIncr cfg a used).Just cfg ∧ (afterIncr cfg a used).given cfg = some (a.key cfg, used)
  := by
  unfold afterIncr
  split
  · case isTrue one =>
    rw [one]
    exact ⟨trivial, rfl⟩
  · obtain ⟨just, same⟩ := just_verdict (limitOf cfg (bucketOf a.scope.path)) used
    refine ⟨just, ?_⟩
    simp only [Phase.given, same, Option.map_some]

/-- The request has not come to a command, or it is decided. -/
def Phase.Settled : Phase → Prop
  | .expiring _ => False
  | _ => True

/-- The request has made the counter of its window, and its `EXPIRE` is to come or has not been
answered. -/
def Phase.Owes (cfg : Settings) (k : Key) : Phase → Prop
  | .expiring a => a.key cfg = k
  | .decided a (.unavailable used) => a.key cfg = k ∧ used = some 1
  | .decided a (.cancelled used) => a.key cfg = k ∧ used = some 1
  | _ => False

theorem owes_fault {k : Key} {a : Asked} (fault : Fault) {used : Option ℤ} (key : a.key cfg = k)
    (one : used = some 1) :
  (Phase.decided a (fault.verdict used)).Owes cfg k
  := by
  cases fault
  all_goals exact ⟨key, one⟩

theorem given_of_owes {k : Key} {p : Phase} (h : p.Owes cfg k) :
  p.given cfg = some (k, 1)
  := by
  match p, h with
  | .expiring a, key =>
    rw [← key]
    rfl
  | .decided a (.unavailable used), ⟨key, one⟩ =>
    rw [← key, one]
    rfl
  | .decided a (.cancelled used), ⟨key, one⟩ =>
    rw [← key, one]
    rfl

/-- What a step may be: the clock, a request that comes to be or gives up without having been
counted, an increment, and what the request with the number one does next. -/
inductive Moved (cfg : Settings) (s : State) (a : Action) : State → Prop where
  | clock (ms : ℕ) : a = .elapse ms → Moved cfg s a { s with now := s.now + ms }
  | uncounted (r : ℕ) (p : Phase) :
      s.given cfg r = none → p.given cfg = none → p.Just cfg → p.Settled → Moved cfg s a (s.put r p)
  | counted (r : ℕ) (asked : Asked) (p : Phase) :
      (a = .command r ∨ ∃ fault, a = .fail r fault true) → s.requests r = .counting asked →
      p.given cfg = some (asked.key cfg, s.nextUsed cfg asked) → p.Just cfg →
      (p.Settled ∨ p = .expiring asked ∧ s.nextUsed cfg asked = 1) →
      (s.nextUsed cfg asked = 1 → p.Owes cfg (asked.key cfg)) →
      Moved cfg s a ((s.incr cfg asked).put r p)
  | expires (r : ℕ) (asked : Asked) (v : Verdict) :
      s.requests r = .expiring asked → v.used = some 1 →
      v.Just (limitOf cfg (bucketOf asked.scope.path)) →
      Moved cfg s a ((s.expire cfg asked).put r (.decided asked v))
  | forgets (r : ℕ) (asked : Asked) (v : Verdict) :
      s.requests r = .expiring asked → v.used = some 1 →
      v.Just (limitOf cfg (bucketOf asked.scope.path)) →
      (Phase.decided asked v).Owes cfg (asked.key cfg) →
      Moved cfg s a (s.put r (.decided asked v))

theorem given_counting {s : State} {r : ℕ} {asked : Asked} (h : s.requests r = .counting asked) :
  s.given cfg r = none
  := by
  unfold State.given
  rw [h]
  rfl

theorem given_expiring {s : State} {r : ℕ} {asked : Asked} (h : s.requests r = .expiring asked) :
  s.given cfg r = some (asked.key cfg, 1)
  := by
  unfold State.given
  rw [h]
  rfl

theorem moved_of_command {s t : State} {r : ℕ} (h : step cfg (.command r) s = some t) :
  Moved cfg s (.command r) t
  := by
  simp only [step] at h
  split at h
  · case h_1 asked counting =>
    cases h
    obtain ⟨just, given⟩ := just_afterIncr cfg asked (s.nextUsed cfg asked)
    apply Moved.counted r asked _ (.inl rfl) counting given just
    · unfold afterIncr
      split
      · case isTrue one => exact .inr ⟨rfl, one⟩
      · exact .inl trivial
    · intro one
      unfold afterIncr
      rw [if_pos one]
      rfl
  · case h_2 asked expiring =>
    cases h
    obtain ⟨just, used⟩ := just_verdict (limitOf cfg (bucketOf asked.scope.path)) 1
    exact Moved.expires r asked _ expiring used just
  · cases h

theorem moved_of_fail {s t : State} {r : ℕ} {fault : Fault} {executed : Bool}
    (h : step cfg (.fail r fault executed) s = some t) :
  Moved cfg s (.fail r fault executed) t
  := by
  simp only [step] at h
  split at h
  · case h_1 asked counting =>
    cases executed with
    | true =>
      cases h
      obtain ⟨just, used⟩ := just_fault fault (limitOf cfg (bucketOf asked.scope.path))
        (some (s.nextUsed cfg asked))
      apply Moved.counted r asked (.decided asked _) (.inr ⟨fault, rfl⟩) counting _ just
        (.inl trivial)
      · intro one
        apply owes_fault fault rfl
        rw [one]
      · simp only [Phase.given, used, Option.map_some]
    | false =>
      cases h
      obtain ⟨just, used⟩ := just_fault fault (limitOf cfg (bucketOf asked.scope.path)) none
      apply Moved.uncounted r (.decided asked _) (given_counting counting) _ just trivial
      simp only [Phase.given, used, Option.map_none]
  · case h_2 asked expiring =>
    obtain ⟨just, used⟩ := just_fault fault (limitOf cfg (bucketOf asked.scope.path)) (some 1)
    cases executed with
    | true =>
      cases h
      exact Moved.expires r asked _ expiring used just
    | false =>
      cases h
      exact Moved.forgets r asked _ expiring used just (owes_fault fault rfl rfl)
  · cases h

theorem moved_of_step {s t : State} {a : Action} (h : step cfg a s = some t) :
  Moved cfg s a t
  := by
  cases a with
  | elapse ms =>
    cases h
    exact Moved.clock ms rfl
  | enter r scope reading =>
    simp only [step] at h
    split at h
    · case isTrue absent =>
      have fresh : s.given cfg r = none := by
        unfold State.given
        rw [absent]
        rfl
      cases h
      split
      · exact Moved.uncounted r _ fresh rfl trivial trivial
      · exact Moved.uncounted r _ fresh rfl trivial trivial
    · cases h
  | command r => exact moved_of_command h
  | fail r fault executed => exact moved_of_fail h

/-! ### Runs -/

/-- The server executes an increment at most `early` before and `late` after the moment that the
process has read. -/
def onTime (early late : ℕ) (s : State) (r : ℕ) : Bool :=
  match s.requests r with
  | .counting a => decide (a.reading ≤ s.now + early) && decide (s.now ≤ a.reading + late)
  | _ => true

def punctual (early late : ℕ) (s : State) : Action → Bool
  | .command r => onTime early late s r
  | .fail r _ executed => !executed || onTime early late s r
  | _ => true

theorem reading_of_punctual {early late : ℕ} {s : State} {a : Action} {r : ℕ} {asked : Asked}
    (h : punctual early late s a = true) (move : a = .command r ∨ ∃ fault, a = .fail r fault true)
    (counting : s.requests r = .counting asked) :
  asked.reading ≤ s.now + early ∧ s.now ≤ asked.reading + late
  := by
  have timely : onTime early late s r = true := by
    obtain rfl | ⟨fault, rfl⟩ := move
    · exact h
    · exact h
  unfold onTime at timely
  rw [counting] at timely
  simp only [Bool.and_eq_true, decide_eq_true_eq] at timely
  exact timely

/-- While the increments are on time, the counters number the requests of their windows: a counter
expires only when its window is over for all of them. -/
structure Sound (cfg : Settings) (early : ℕ) (s : State) : Prop where
  tickets : Counters.Tickets s.keys (s.given cfg)
  lasting : ∀ k c e, s.keys k = some c → c.expiresAt = some e →
    k.window * windowMs + ttlMs ≤ e + early
  due : ∀ r a, s.requests r = .expiring a → (a.key cfg).window * windowMs ≤ s.now + early
  just : ∀ r, (s.requests r).Just cfg

theorem sound_of_init {early : ℕ} {s : State} (h : (machine cfg).init s) :
  Sound cfg early s
  := by
  obtain ⟨keys, requests⟩ := h
  have given : s.given cfg = fun _ => none := by
    funext r
    unfold State.given
    rw [requests]
    rfl
  constructor
  · rw [keys, given]
    exact Counters.Tickets.init
  · intro k c e found
    rw [keys] at found
    cases found
  · intro r a expiring
    rw [requests] at expiring
    cases expiring
  · intro r
    rw [requests]
    trivial

theorem just_put {s : State} (h : ∀ r, (s.requests r).Just cfg) (r : ℕ) {p : Phase}
    (just : p.Just cfg) :
  ∀ r', ((s.put r p).requests r').Just cfg
  := by
  intro r'
  simp only [State.put, Function.update_apply]
  split
  · exact just
  · exact h r'

/-- A request that waits to set an expiry either is the one that has been moved, or has waited. -/
theorem expiring_put {s : State} {r r' : ℕ} {p : Phase} {a : Asked}
    (h : (s.put r p).requests r' = .expiring a) :
  p = .expiring a ∨ s.requests r' = .expiring a
  := by
  simp only [State.put, Function.update_apply] at h
  split at h
  · exact .inl h
  · exact .inr h

theorem Settled.not_expiring {p : Phase} (h : p.Settled) (a : Asked) :
  p ≠ .expiring a
  := by
  rintro rfl
  exact h

/-- The counter of a request that is on time has not expired. -/
theorem Sound.lives {early late : ℕ} (total : early + late ≤ ttlMs - windowMs) {s : State}
    (h : Sound cfg early s) {asked : Asked} (timely : s.now ≤ asked.reading + late) :
  ∀ c, s.keys (asked.key cfg) = some c → c.Lives s.now
  := by
  intro c found e expiresAt
  have lasting := h.lasting _ c e found expiresAt
  have window : (asked.key cfg).window = asked.reading / windowMs := rfl
  have below := Nat.lt_div_mul_add (a := asked.reading) (b := windowMs) (by decide)
  rw [window] at lasting
  unfold ttlMs windowMs at *
  omega

theorem Sound.step {early late : ℕ} (total : early + late ≤ ttlMs - windowMs) {s t : State}
    {a : Action} (h : Sound cfg early s) (timely : punctual early late s a = true)
    (hstep : (machine cfg).step a s = some t) :
  Sound cfg early t
  := by
  cases moved_of_step hstep with
  | clock ms _ =>
    refine ⟨h.tickets, h.lasting, ?_, h.just⟩
    intro r asked expiring
    have := h.due r asked expiring
    simp only
    omega
  | uncounted r p fresh given just settled =>
    refine ⟨?_, h.lasting, ?_, just_put h.just r just⟩
    · have same : Function.update (s.given cfg) r (p.given cfg) = s.given cfg := by
        rw [given, ← fresh]
        apply Function.update_eq_self
      rw [State.given_put, same]
      exact h.tickets
    · intro r' asked expiring
      obtain same | before := expiring_put expiring
      · exact absurd same (Settled.not_expiring settled asked)
      · exact h.due r' asked before
  | counted r asked p move counting given just next _ =>
    obtain ⟨before, after⟩ := reading_of_punctual timely move counting
    refine ⟨?_, ?_, ?_, just_put h.just r just⟩
    · rw [State.given_put, given]
      exact h.tickets.incr (h.lives total after) (given_counting counting)
    · intro k c e found expiresAt
      by_cases same : k = asked.key cfg
      · subst same
        simp only [State.put, State.incr, Counters.incrBy_self] at found
        cases found
        rw [Option.bind_eq_some_iff] at expiresAt
        obtain ⟨c, read, expiresAt⟩ := expiresAt
        exact h.lasting _ c e (Counters.read_eq_some_iff.mp read).1 expiresAt
      · simp only [State.put, State.incr, Counters.incrBy_of_ne _ _ same] at found
        exact h.lasting k c e found expiresAt
    · intro r' asked' expiring
      obtain same | before' := expiring_put expiring
      · obtain settled | ⟨own, -⟩ := next
        · exact absurd same (Settled.not_expiring settled asked')
        · cases own.symm.trans same
          have window : (asked.key cfg).window = asked.reading / windowMs := rfl
          have floor := Nat.div_mul_le_self asked.reading windowMs
          rw [window]
          simp only [State.put, State.incr]
          omega
      · exact h.due r' asked' before'
  | expires r asked v expiring used just =>
    have given : s.given cfg r = (Phase.decided asked v).given cfg := by
      rw [given_expiring expiring]
      simp only [Phase.given, used, Option.map_some]
    have unchanged : (s.expire cfg asked).given cfg = s.given cfg := rfl
    refine ⟨?_, ?_, ?_, just_put h.just r just⟩
    · rw [State.given_put, ← given, unchanged, Function.update_eq_self]
      apply h.tickets.expire
    · intro k c e found expiresAt
      simp only [State.put, State.expire] at found
      by_cases same : k = asked.key cfg
      · subst same
        cases read : s.keys.read s.now (asked.key cfg) with
        | none =>
          rw [Counters.expire_of_none read] at found
          exact h.lasting _ c e found expiresAt
        | some c' =>
          rw [Counters.expire_of_read read, Function.update_self] at found
          cases found
          cases expiresAt
          have := h.due r asked expiring
          omega
      · rw [Counters.expire_of_ne _ _ same] at found
        exact h.lasting k c e found expiresAt
    · intro r' asked' expiring'
      obtain same | before := expiring_put expiring'
      · cases same
      · exact h.due r' asked' before
  | forgets r asked v expiring used just _ =>
    have given : s.given cfg r = (Phase.decided asked v).given cfg := by
      rw [given_expiring expiring]
      simp only [Phase.given, used, Option.map_some]
    refine ⟨?_, h.lasting, ?_, just_put h.just r just⟩
    · rw [State.given_put, ← given, Function.update_eq_self]
      exact h.tickets
    · intro r' asked' expiring'
      obtain same | before := expiring_put expiring'
      · cases same
      · exact h.due r' asked' before

theorem Sound.of_run {early late : ℕ} (total : early + late ≤ ttlMs - windowMs)
    {h : List (State × Action)} {s : State} (run : (machine cfg).Run h s)
    (timely : ∀ x ∈ h, punctual early late x.1 x.2 = true) :
  Sound cfg early s
  := by
  apply run.invariant_of_guard (G := fun s a => punctual early late s a = true)
  · exact fun s init => sound_of_init init
  · exact fun a s t sound guard hstep => sound.step total guard hstep
  · exact timely

/-! ### The limit -/

/-- The request has been passed on since its number is within the limit. -/
def State.Admitted (s : State) (r : ℕ) (a : Asked) : Prop :=
  ∃ used, s.requests r = .decided a (.within used)

theorem given_of_admitted {s : State} (just : ∀ r, (s.requests r).Just cfg) {r : ℕ} {a : Asked}
    (h : s.Admitted r a) :
  ∃ n, s.given cfg r = some (a.key cfg, n) ∧ n ≤ limitOf cfg (a.key cfg).bucket
  := by
  obtain ⟨used, decided⟩ := h
  have le := just r
  rw [decided] at le
  refine ⟨used, ?_, le⟩
  unfold State.given
  rw [decided]
  rfl

/-- As long as the server executes the increments within 61 seconds in all of the moments that were
read, no more than the limit of the requests of a window are admitted, and a request is refused only
after as many others of its window have been counted. -/
theorem window_limit {early late : ℕ} (total : early + late ≤ ttlMs - windowMs)
    {h : List (State × Action)} {s : State} (run : (machine cfg).Run h s)
    (timely : ∀ x ∈ h, punctual early late x.1 x.2 = true) :
  (∀ k (ids : Finset ℕ), (∀ r ∈ ids, ∃ a, s.Admitted r a ∧ a.key cfg = k) →
    ids.card ≤ (limitOf cfg k.bucket).toNat) ∧
  ∀ r a used, s.requests r = .decided a (.over used) →
    ∃ ids : Finset ℕ, r ∉ ids ∧ ids.card = (limitOf cfg (a.key cfg).bucket).toNat ∧
      ∀ r' ∈ ids, ∃ n, s.given cfg r' = some (a.key cfg, n) ∧ n < used
  := by
  have sound := Sound.of_run total run timely
  constructor
  · intro k ids all
    have numbers : ∀ r ∈ ids, ∃ n, s.given cfg r = some (k, n) ∧ n ≤ limitOf cfg k.bucket := by
      intro r mem
      obtain ⟨a, admitted, rfl⟩ := all r mem
      exact given_of_admitted sound.just admitted
    exact sound.tickets.card_le ids numbers
  · intro r a used decided
    have given : s.given cfg r = some (a.key cfg, used) := by
      unfold State.given
      rw [decided]
      rfl
    have lt : limitOf cfg (a.key cfg).bucket < used := by
      have just := sound.just r
      rw [decided] at just
      exact just
    obtain ⟨ids, card, all⟩ := sound.tickets.exists_card given lt
    refine ⟨ids, ?_, card, ?_⟩
    · intro mem
      obtain ⟨m, given', le⟩ := all r mem
      rw [given] at given'
      cases given'
      omega
    · intro r' mem
      obtain ⟨m, given', le⟩ := all r' mem
      exact ⟨m, given', by omega⟩

/-! ### A small run -/

def sampleSettings : Settings where
  rateLimitAuthPerMinute := 1

def sampleScope (forwarded : List UInt8) : Scope where
  path := "/api/v1/auth/login"
  headers := [(forwardedFor, forwarded)]
  client := some "10.0.0.1"

def sampleAsked (forwarded : List UInt8) : Asked := ⟨sampleScope forwarded, 5⟩

/-- Two requests of a peer, which name different addresses; the second one is refused. -/
def sampleActions : List Action :=
  [.enter 0 (sampleScope [49]) 5, .command 0, .command 0, .elapse 7, .enter 1 (sampleScope [50]) 5,
    .command 1]

theorem sample_run :
  ∃ h s, (machine sampleSettings).Run h s ∧ (∀ x ∈ h, punctual 30000 30000 x.1 x.2 = true) ∧
    s.requests 0 = .decided (sampleAsked [49]) (.within 1) ∧
    s.requests 1 = .decided (sampleAsked [50]) (.over 2)
  := by
  obtain ⟨h, s, run, timely, ends⟩ := (machine sampleSettings).exists_run_of_execWhile sampleActions
    (punctual 30000 30000)
    (fun s => s.requests 0 = .decided (sampleAsked [49]) (.within 1) ∧
      s.requests 1 = .decided (sampleAsked [50]) (.over 2))
    (s := { now := 0 }) ⟨rfl, rfl⟩ (by decide +kernel)
  exact ⟨h, s, run, timely, of_decide_eq_true ends⟩

/-- The refused request of the small run came after one that was counted. -/
theorem window_limit_sample :
  ∃ h s, (machine sampleSettings).Run h s ∧
    s.requests 1 = .decided (sampleAsked [50]) (.over 2) ∧
    ∃ ids : Finset ℕ, 1 ∉ ids ∧ ids.card = 1
  := by
  obtain ⟨h, s, run, timely, -, full⟩ := sample_run
  obtain ⟨-, refused⟩ := window_limit (by decide) run timely
  obtain ⟨ids, others, card, -⟩ := refused 1 _ 2 full
  exact ⟨h, s, run, full, ids, others, card⟩

/-- The windows of two readings less than a minute apart are the same, or follow on another. -/
theorem window_of_reading {t reading : ℕ} (from_t : t ≤ reading) (below : reading < t + windowMs) :
  reading / windowMs = t / windowMs ∨ reading / windowMs = t / windowMs + 1
  := by
  unfold windowMs at *
  omega

/-- Where no proxy is trusted, a peer has no more than twice the limit of its requests of a kind
admitted in a minute, whatever their headers say. -/
theorem peer_limit {early late : ℕ} (total : early + late ≤ ttlMs - windowMs)
    (untrusted : cfg.rateLimitTrustProxyHeaders = false)
    {h : List (State × Action)} {s : State} (run : (machine cfg).Run h s)
    (timely : ∀ x ∈ h, punctual early late x.1 x.2 = true)
    (client : Option String) (bucket : Bucket) (t : ℕ) (ids : Finset ℕ)
    (all : ∀ r ∈ ids, ∃ a, s.Admitted r a ∧ a.scope.client = client ∧
      bucketOf a.scope.path = bucket ∧ t ≤ a.reading ∧ a.reading < t + windowMs) :
  ids.card ≤ 2 * (limitOf cfg bucket).toNat
  := by
  classical
  have bounded := (window_limit total run timely).1
  have key : ∀ r ∈ ids, ∃ a, s.Admitted r a ∧
      (a.key cfg = ⟨bucket, peer client, t / windowMs⟩ ∨
        a.key cfg = ⟨bucket, peer client, t / windowMs + 1⟩) := by
    intro r mem
    obtain ⟨a, admitted, ofClient, ofBucket, from_t, below⟩ := all r mem
    refine ⟨a, admitted, ?_⟩
    unfold Asked.key clientIp
    rw [untrusted, ofBucket, if_neg Bool.false_ne_true, ofClient]
    obtain same | next := window_of_reading from_t below
    · exact .inl (by rw [same])
    · exact .inr (by rw [next])
  let inWindow (w : ℕ) : Finset ℕ :=
    ids.filter fun r => ∃ a, s.Admitted r a ∧ a.key cfg = ⟨bucket, peer client, w⟩
  have split : ids ⊆ inWindow (t / windowMs) ∪ inWindow (t / windowMs + 1) := by
    intro r mem
    obtain ⟨a, admitted, first | second⟩ := key r mem
    · exact Finset.mem_union_left _ (Finset.mem_filter.mpr ⟨mem, a, admitted, first⟩)
    · exact Finset.mem_union_right _ (Finset.mem_filter.mpr ⟨mem, a, admitted, second⟩)
  have each : ∀ w, (inWindow w).card ≤ (limitOf cfg bucket).toNat := by
    intro w
    apply bounded ⟨bucket, peer client, w⟩
    intro r mem
    exact (Finset.mem_filter.mp mem).2
  calc
    ids.card ≤ (inWindow (t / windowMs) ∪ inWindow (t / windowMs + 1)).card :=
      Finset.card_le_card split
    _ ≤ (inWindow (t / windowMs)).card + (inWindow (t / windowMs + 1)).card :=
      Finset.card_union_le ..
    _ ≤ 2 * (limitOf cfg bucket).toNat := by
      have first := each (t / windowMs)
      have second := each (t / windowMs + 1)
      omega

/-- The peer of the small run has no more than two of its requests admitted. -/
theorem peer_limit_sample :
  ∃ h s, (machine sampleSettings).Run h s ∧ s.Admitted 0 (sampleAsked [49]) ∧
    ({0} : Finset ℕ).card ≤ 2 * 1
  := by
  obtain ⟨h, s, run, timely, within, -⟩ := sample_run
  have untrusted : sampleSettings.rateLimitTrustProxyHeaders = false := rfl
  refine ⟨h, s, run, ⟨1, within⟩, ?_⟩
  apply peer_limit (by decide) untrusted run timely (some "10.0.0.1") .auth 0
  intro r mem
  rw [Finset.mem_singleton.mp mem]
  exact ⟨sampleAsked [49], ⟨1, within⟩, rfl, by decide +kernel, by decide, by decide⟩

/-! ### Counters without an expiry -/

/-- A counter counts at least one request, and one without an expiry is owed it. -/
structure Owed (cfg : Settings) (s : State) : Prop where
  positive : ∀ k c, s.keys k = some c → 1 ≤ c.value
  owed : ∀ k c, s.keys k = some c → c.expiresAt = none → ∃ r, (s.requests r).Owes cfg k

theorem owed_of_init {s : State} (h : (machine cfg).init s) :
  Owed cfg s
  := by
  constructor
  all_goals
    intro k c found
    rw [h.1] at found
    cases found

/-- The counter of a key that is read, or zero, is not negative. -/
theorem Owed.count_nonneg {s : State} (h : Owed cfg s) (now : ℕ) (k : Key) :
  0 ≤ s.keys.count now k
  := by
  cases read : s.keys.read now k with
  | none =>
    rw [Counters.count_of_none read]
  | some c =>
    rw [Counters.count_of_read read]
    have := h.positive k c (Counters.read_eq_some_iff.mp read).1
    omega

/-- A request that owes an expiry still does if another one has moved. -/
theorem owes_put {s : State} {r r' : ℕ} {k : Key} (h : (s.requests r').Owes cfg k) (ne : r' ≠ r)
    (p : Phase) :
  ((s.put r p).requests r').Owes cfg k
  := by
  simp only [State.put, Function.update_of_ne ne]
  exact h

theorem owes_put_self {s : State} {r : ℕ} {k : Key} {p : Phase} (h : p.Owes cfg k) :
  ((s.put r p).requests r).Owes cfg k
  := by
  simp only [State.put, Function.update_self]
  exact h

theorem Owed.ne_of_given {s : State} {r r' : ℕ} {k : Key} (h : (s.requests r').Owes cfg k)
    (other : s.given cfg r ≠ some (k, 1)) :
  r' ≠ r
  := by
  rintro rfl
  exact other (given_of_owes h)

theorem Owed.step {s t : State} {a : Action} (h : Owed cfg s)
    (hstep : (machine cfg).step a s = some t) :
  Owed cfg t
  := by
  cases moved_of_step hstep with
  | clock ms _ => exact ⟨h.positive, h.owed⟩
  | uncounted r p fresh _ _ _ =>
    refine ⟨h.positive, ?_⟩
    intro k c found forever
    obtain ⟨r', owes⟩ := h.owed k c found forever
    refine ⟨r', owes_put owes (Owed.ne_of_given owes ?_) p⟩
    rw [fresh]
    exact nofun
  | counted r asked p _ counting _ _ _ owing =>
    have fresh : ∀ k, s.given cfg r ≠ some (k, 1) := by
      intro k
      rw [given_counting counting]
      exact nofun
    constructor
    · intro k c found
      by_cases same : k = asked.key cfg
      · subst same
        simp only [State.put, State.incr, Counters.incrBy_self] at found
        cases found
        have := h.count_nonneg s.now (asked.key cfg)
        simp only
        omega
      · simp only [State.put, State.incr, Counters.incrBy_of_ne _ _ same] at found
        exact h.positive k c found
    · intro k c found forever
      by_cases same : k = asked.key cfg
      · subst same
        simp only [State.put, State.incr, Counters.incrBy_self] at found
        cases found
        cases read : s.keys.read s.now (asked.key cfg) with
        | none =>
          use r
          apply owes_put_self
          apply owing
          unfold State.nextUsed
          rw [Counters.count_of_none read]
          rfl
        | some c =>
          rw [read] at forever
          obtain ⟨r', owes⟩ := h.owed _ c (Counters.read_eq_some_iff.mp read).1 forever
          exact ⟨r', owes_put owes (Owed.ne_of_given owes (fresh _)) p⟩
      · simp only [State.put, State.incr, Counters.incrBy_of_ne _ _ same] at found
        obtain ⟨r', owes⟩ := h.owed k c found forever
        exact ⟨r', owes_put owes (Owed.ne_of_given owes (fresh k)) p⟩
  | expires r asked v expiring _ _ =>
    constructor
    · intro k c found
      simp only [State.put, State.expire] at found
      by_cases same : k = asked.key cfg
      · subst same
        cases read : s.keys.read s.now (asked.key cfg) with
        | none =>
          rw [Counters.expire_of_none read] at found
          exact h.positive _ c found
        | some c' =>
          rw [Counters.expire_of_read read, Function.update_self] at found
          cases found
          exact h.positive _ c' (Counters.read_eq_some_iff.mp read).1
      · rw [Counters.expire_of_ne _ _ same] at found
        exact h.positive k c found
    · intro k c found forever
      simp only [State.put, State.expire] at found
      by_cases same : k = asked.key cfg
      · subst same
        cases read : s.keys.read s.now (asked.key cfg) with
        | none =>
          rw [Counters.expire_of_none read] at found
          rw [Counters.read_eq_some_iff.mpr ⟨found, Counter.lives_of_none forever _⟩] at read
          cases read
        | some c' =>
          rw [Counters.expire_of_read read, Function.update_self] at found
          cases found
          cases forever
      · rw [Counters.expire_of_ne _ _ same] at found
        obtain ⟨r', owes⟩ := h.owed k c found forever
        refine ⟨r', owes_put owes (Owed.ne_of_given owes ?_) _⟩
        rw [given_expiring expiring]
        rintro ⟨⟩
        exact same rfl
  | forgets r asked v expiring _ _ owing =>
    refine ⟨h.positive, ?_⟩
    intro k c found forever
    obtain ⟨r', owes⟩ := h.owed k c found forever
    by_cases mine : r' = r
    · subst mine
      rw [expiring] at owes
      cases owes
      exact ⟨r', owes_put_self owing⟩
    · exact ⟨r', owes_put owes mine _⟩

/-- The counter of a key has no expiry, and no request waits to set it. -/
structure Stuck (cfg : Settings) (k : Key) (least : ℤ) (s : State) : Prop where
  forever : ∃ c, s.keys k = some c ∧ c.expiresAt = none ∧ least ≤ c.value
  unattended : ∀ r a, s.requests r = .expiring a → a.key cfg ≠ k

/-- A counter that is stuck is one after every step. -/
theorem Stuck.step {k : Key} {least : ℤ} (pos : 1 ≤ least) {s t : State} {a : Action}
    (h : Stuck cfg k least s) (hstep : (machine cfg).step a s = some t) :
  Stuck cfg k least t
  := by
  obtain ⟨⟨c, found, forever, le⟩, unattended⟩ := h
  cases moved_of_step hstep with
  | clock ms _ => exact ⟨⟨c, found, forever, le⟩, unattended⟩
  | uncounted r p _ _ _ settled =>
    refine ⟨⟨c, found, forever, le⟩, ?_⟩
    intro r' asked expiring
    obtain same | before := expiring_put expiring
    · exact absurd same (Settled.not_expiring settled asked)
    · exact unattended r' asked before
  | counted r asked p _ _ _ _ next _ =>
    by_cases same : k = asked.key cfg
    · subst same
      have read : s.keys.read s.now (asked.key cfg) = some c :=
        Counters.read_eq_some_iff.mpr ⟨found, Counter.lives_of_none forever _⟩
      have later : s.nextUsed cfg asked ≠ 1 := by
        unfold State.nextUsed
        rw [Counters.count_of_read read]
        omega
      constructor
      · refine ⟨⟨c.value + 1, none⟩, ?_, rfl, by simp only; omega⟩
        simp only [State.put, State.incr, Counters.incrBy_self, read, Option.bind_some, forever,
          Counters.count_of_read read]
      · intro r' asked' expiring
        obtain same | before := expiring_put expiring
        · obtain settled | ⟨-, one⟩ := next
          · exact absurd same (Settled.not_expiring settled asked')
          · exact absurd one later
        · exact unattended r' asked' before
    · constructor
      · refine ⟨c, ?_, forever, le⟩
        simp only [State.put, State.incr, Counters.incrBy_of_ne _ _ same]
        exact found
      · intro r' asked' expiring
        obtain own | before := expiring_put expiring
        · obtain settled | ⟨own', -⟩ := next
          · exact absurd own (Settled.not_expiring settled asked')
          · cases own'.symm.trans own
            exact Ne.symm same
        · exact unattended r' asked' before
  | expires r asked v expiring _ _ =>
    have other : k ≠ asked.key cfg := (unattended r asked expiring).symm
    constructor
    · refine ⟨c, ?_, forever, le⟩
      simp only [State.put, State.expire, Counters.expire_of_ne _ _ other]
      exact found
    · intro r' asked' expiring'
      obtain same | before := expiring_put expiring'
      · cases same
      · exact unattended r' asked' before
  | forgets r asked v expiring _ _ _ =>
    refine ⟨⟨c, found, forever, le⟩, ?_⟩
    intro r' asked' expiring'
    obtain same | before := expiring_put expiring'
    · cases same
    · exact unattended r' asked' before

/-- A counter without an expiry belongs to the first request of its window, which waits to set it or
has been interrupted; once no request waits to, the counter is there for ever, and goes on
counting. -/
theorem counter_leaked {h : List (State × Action)} {s : State} (run : (machine cfg).Run h s) :
  ∀ u ∈ Machine.states h s, ∀ k c, u.keys k = some c → c.expiresAt = none →
    (∃ r, (u.requests r).Owes cfg k) ∧
      ((∀ r a, u.requests r = .expiring a → a.key cfg ≠ k) →
        ∃ c', s.keys k = some c' ∧ c'.expiresAt = none ∧ c.value ≤ c'.value)
  := by
  have owed := run.forall_states (I := Owed cfg) (fun s init => owed_of_init init)
    fun a s t owed hstep => owed.step hstep
  have stuck := run.forall_later (I := Owed cfg) (G := fun _ _ => True)
    (R := fun u s => ∀ k least, 1 ≤ least → Stuck cfg k least u → Stuck cfg k least s)
    (fun s init => owed_of_init init) (fun a s t owed _ hstep => owed.step hstep)
    (fun s k least _ stuck => stuck)
    (fun a u s t _ _ before hstep k least pos stuck => (before k least pos stuck).step pos hstep)
    fun _ _ => trivial
  intro u hu k c found forever
  refine ⟨(owed u hu).owed k c found forever, ?_⟩
  intro unattended
  have now : Stuck cfg k c.value u := ⟨⟨c, found, forever, le_refl _⟩, unattended⟩
  exact (stuck u hu k c.value ((owed u hu).positive k c found) now).forever

/-- The first request of a window is cancelled between its two commands. -/
theorem counter_leaked_sample :
  ∃ h s, (machine sampleSettings).Run h s ∧ s.now = 900000 ∧
    s.keys ((sampleAsked [49]).key sampleSettings) = some ⟨1, none⟩ ∧
    ∃ r, (s.requests r).Owes sampleSettings ((sampleAsked [49]).key sampleSettings)
  := by
  obtain ⟨h, s, run, ends⟩ := (machine sampleSettings).exists_run_of_exec
    [.enter 0 (sampleScope [49]) 5, .command 0, .fail 0 .cancelled false, .elapse 900000]
    (fun s => s.now = 900000 ∧
      s.keys ((sampleAsked [49]).key sampleSettings) = some ⟨1, none⟩)
    (s := { now := 0 }) ⟨rfl, rfl⟩ (by decide +kernel)
  obtain ⟨now, found⟩ := of_decide_eq_true ends
  exact ⟨h, s, run, now, found, (counter_leaked run s List.mem_cons_self _ _ found rfl).1⟩

end Lumina.Api.RateLimit
