import Lumina.Library.Table
import Lumina.Library.Transition

/-!
# The requests of a tab

`authorizedFetch` with its replay, the refresh that all requests share, and the `bootstrap` of the
auth store, which calls the endpoint of the refresh as a request of its own.  A step is a call or a
response; the continuations of all who await a refresh run in the step in which it settles.
-/

namespace Lumina.Frontend

open Transition

/-- The paths, as far as they are distinguished: `/api/v1/auth/refresh`, another path below
`/api/v1/auth/`, and any other. -/
inductive Path where
  | refresh
  | auth
  | api
deriving DecidableEq

def isAuthPath : Path → Bool
  | .refresh | .auth => true
  | .api => false

/-- How a call ends: with a body, which has a token if it is the one of a refresh, with a 401 of the
code `AUTH_TOKEN_EXPIRED`, or otherwise. -/
inductive Reply where
  | ok (accessToken : ℕ)
  | tokenExpired
  | failed
deriving DecidableEq

inductive Phase where
  /-- The first call is in flight. -/
  | calling
  /-- The shared refresh is awaited. -/
  | waiting
  | replaying
  | settled
deriving DecidableEq

/-- A call of `authorizedFetch`.  `awaited` is the refresh that it has waited for, `replayed` the
token of the replay, and `calls` counts the requests that it has sent; they are ghosts. -/
structure ApiRequest where
  path : Path
  usedToken : Option ℕ
  phase : Phase := .calling
  awaited : Option ℕ := none
  replayed : Option ℕ := none
  calls : ℕ := 1
deriving DecidableEq

/-- How a shared refresh stands. -/
inductive Refresh where
  | inFlight
  | succeeded (accessToken : ℕ)
  | failed
deriving DecidableEq

/-- `refreshes` are all shared refreshes there have been, and `expirations` counts the calls of
`onSessionExpired`; they are ghosts. -/
structure Client where
  accessToken : Option ℕ := none
  refreshInFlight : Option ℕ := none
  bootstrapped : Bool := false
  requests : List ApiRequest := []
  refreshes : List Refresh := []
  expirations : ℕ := 0

inductive ClientAction where
  | bootstrap
  /-- A request of another path. -/
  | request (auth : Bool)
  /-- A call of a request ends. -/
  | answer (i : ℕ) (reply : Reply)
  /-- The call of the shared refresh ends. -/
  | refreshed (reply : Reply)
  | loggedIn (accessToken : ℕ)
  | loggedOut
deriving DecidableEq

namespace ApiRequest

def replay (accessToken : ℕ) (r : ApiRequest) : ApiRequest :=
  { r with phase := .replaying, replayed := some accessToken, calls := r.calls + 1 }

def settle (r : ApiRequest) : ApiRequest :=
  { r with phase := .settled }

def wait (n : ℕ) (r : ApiRequest) : ApiRequest :=
  { r with phase := .waiting, awaited := some n }

/-- The request awaits this refresh. -/
def awaits (n : ℕ) (r : ApiRequest) : Bool :=
  r.phase = .waiting && r.awaited = some n

end ApiRequest

namespace Client

def setRequest (s : Client) (i : ℕ) (r : ApiRequest) : Client :=
  { s with requests := s.requests.set i r }

/-- The start of `sharedRefresh`: the refresh that is awaited. -/
def sharedRefresh (s : Client) : Client × ℕ :=
  match s.refreshInFlight with
  | some n => (s, n)
  | none =>
      ({ s with
          refreshInFlight := some s.refreshes.length
          refreshes := s.refreshes ++ [.inFlight] },
        s.refreshes.length)

/-- `authorizedFetch` after an `AUTH_TOKEN_EXPIRED`. -/
def expired (s : Client) (i : ℕ) (r : ApiRequest) : Client :=
  if isAuthPath r.path then s.setRequest i r.settle
  else
    match s.accessToken with
    | some current =>
        if some current ≠ r.usedToken then s.setRequest i (r.replay current)
        else
          let (s, n) := s.sharedRefresh
          s.setRequest i (r.wait n)
    | none =>
        let (s, n) := s.sharedRefresh
        s.setRequest i (r.wait n)

/-- A call of a request ends. -/
def answer (s : Client) (i : ℕ) (reply : Reply) : Option Client := do
  let r ← s.requests[i]?
  match r.phase, reply with
  | .calling, .ok accessToken =>
      let s := s.setRequest i r.settle
      some (if r.path = .refresh then { s with accessToken := some accessToken } else s)
  | .calling, .tokenExpired => some (s.expired i r)
  | .calling, .failed => some (s.setRequest i r.settle)
  | .replaying, _ => some (s.setRequest i r.settle)
  | .waiting, _ | .settled, _ => none

/-- The rest of `sharedRefresh`, and the requests that await it. -/
def refreshed (s : Client) (reply : Reply) : Option Client := do
  let n ← s.refreshInFlight
  match reply with
  | .ok accessToken =>
      some
        { s with
          accessToken := some accessToken
          refreshInFlight := none
          refreshes := s.refreshes.set n (.succeeded accessToken)
          requests := Table.update (·.awaits n) (·.replay accessToken) s.requests }
  | _ =>
      some
        { s with
          accessToken := none
          refreshInFlight := none
          refreshes := s.refreshes.set n .failed
          expirations := s.expirations + 1
          requests := Table.update (·.awaits n) (·.settle) s.requests }

/-- `bootstrap`, which is memoized. -/
def bootstrap (s : Client) : Client :=
  if s.bootstrapped then s
  else
    let s := { s with bootstrapped := true }
    match s.accessToken with
    | some _ => s
    | none => { s with requests := s.requests ++ [{ path := .refresh, usedToken := none }] }

def step (s : Client) : ClientAction → Option Client
  | .bootstrap => some s.bootstrap
  | .request auth =>
      let path : Path := if auth then .auth else .api
      some { s with requests := s.requests ++ [{ path, usedToken := s.accessToken }] }
  | .answer i reply => s.answer i reply
  | .refreshed reply => s.refreshed reply
  | .loggedIn accessToken => some { s with accessToken := some accessToken }
  | .loggedOut => some { s with accessToken := none }

/-- A tab, from when the application is loaded. -/
def client : Machine Client ClientAction where
  init s := s = {}
  step a s := s.step a

end Client

end Lumina.Frontend
