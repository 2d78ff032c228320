import Lumina.Library.Expiring
import Lumina.Library.Transition

/-!
# Logins, refreshes and revocations

The authentication service of one tenant, with its tables, its keys in Redis and the calls in
progress.  Each step is one access of a call: it reads the clock, runs a transaction, or sends one
command to Redis.  The calls of all clients interleave in any way, and time passes between the
steps.

A token is what it says; only tokens that the service has handed out are presented.  The moments are
in microseconds.
-/

namespace Lumina.Identity

open Transition

abbrev UserId := ℕ
abbrev FamilyId := ℕ
abbrev Jti := ℕ

/-! ### Tokens -/

def second : ℕ := 1000000

/-- `ACCESS_TTL`, in seconds, as are the next ones. -/
def accessTtl : ℕ := 900

def clockSkewLeeway : ℕ := 10

def refreshTtl : ℕ := 14 * 24 * 3600

/-- The claims of an access token; `exp` is in seconds.  `session` and `readAt` are ghosts: the
session it was issued for, and the number of transactions up to the one that read the user. -/
structure AccessToken where
  sub : UserId
  jti : Jti
  tokenVersion : ℕ
  exp : ℕ
  session : FamilyId
  readAt : ℕ
deriving DecidableEq, Repr

/-- The claims of a refresh token; `readAt` is a ghost. -/
structure RefreshToken where
  sub : UserId
  familyId : FamilyId
  jti : Jti
  tokenVersion : ℕ
  exp : ℕ
  readAt : ℕ
deriving DecidableEq, Repr

/-- `expires_at` of a token that is issued now. -/
def expiryOf (now ttl : ℕ) : ℕ :=
  now + ttl * second

/-- `jwt.decode` raises `ExpiredSignatureError`. -/
def expired (now exp : ℕ) : Bool :=
  (exp + clockSkewLeeway) * second ≤ now

/-- `_seconds_until`. -/
def secondsUntil (now moment : ℕ) : ℕ :=
  max ((moment - now) / second) 1

/-- The `remaining` seconds of a logout; zero also if there are less than none. -/
def remaining (now exp : ℕ) : ℕ :=
  (exp * second - now) / second

/-! ### Calls -/

inductive AuthError where
  | tokenExpired
  | sessionGone
  | disabled
  | outdated
  | replayed
deriving DecidableEq, Repr

/-- The message of the error. -/
def AuthError.text : AuthError → String
  | .tokenExpired => "token 已過期"
  | .sessionGone => "這個 session 已失效，請重新登入"
  | .disabled => "帳號已停用"
  | .outdated => "憑證已過期，請重新登入"
  | .replayed => "偵測到 refresh token 重複使用，已終止此 session"

/-- The revocations that have finished: the sessions of the logouts and the users of the calls of
`revoke_all_sessions`, with the number of transactions up to which a token is meant. -/
structure Revocations where
  logouts : List (FamilyId × ℕ) := []
  users : List (UserId × ℕ) := []
deriving DecidableEq, Repr

/-- What a call of `refresh` does next. -/
inductive RefreshPhase where
  | decode
  /-- `GET` of the family. -/
  | family
  /-- The transaction. -/
  | account
  /-- `DEL` of the family, as the token is of another version. -/
  | stale
  | access (version readAt : ℕ)
  | mint (version readAt : ℕ) (access : AccessToken)
  /-- `_seconds_until`, for the script. -/
  | time (access : AccessToken) (issued : RefreshToken) (expiresAt : ℕ)
  /-- The script. -/
  | rotate (access : AccessToken) (issued : RefreshToken) (ttl : ℕ)
deriving DecidableEq, Repr

/-- What a call of `login` does next; the password is right. -/
inductive LoginPhase where
  | account
  | access (version readAt : ℕ) (family : FamilyId)
  | mint (version readAt : ℕ) (access : AccessToken)
  | time (access : AccessToken) (issued : RefreshToken) (expiresAt : ℕ)
  /-- `SET` of the family. -/
  | store (access : AccessToken) (issued : RefreshToken) (ttl : ℕ)
deriving DecidableEq, Repr

inductive LogoutPhase where
  | time
  /-- `SET` of the denial, unless nothing remains. -/
  | deny (remaining : ℕ)
  | decode (refresh : RefreshToken)
  /-- `DEL` of the family. -/
  | delete (refresh : RefreshToken)
deriving DecidableEq, Repr

inductive RevokePhase where
  /-- The transaction. -/
  | bump
  /-- `SET` of the minimum; the last number is a ghost, of the transactions before. -/
  | mark (minimum readAt : ℕ)
deriving DecidableEq, Repr

/-- What a call of `describe_access_token` does next. -/
inductive VerifyPhase where
  | decode
  /-- `EXISTS` of the denial. -/
  | denied
  /-- `GET` of the minimum. -/
  | minimum
deriving DecidableEq, Repr

/-- A call in progress.  `since` is a ghost: the revocations that had finished when it began. -/
inductive Call where
  /-- The tab is the one that awaits the answer, unless someone else presents the token. -/
  | refresh (tab : Option ℕ) (since : Revocations) (token : RefreshToken) (phase : RefreshPhase)
  | login (tab : ℕ) (user : UserId) (phase : LoginPhase)
  | logout (access : AccessToken) (refresh : Option RefreshToken) (phase : LogoutPhase)
  | revoke (user : UserId) (phase : RevokePhase)
  | verify (since : Revocations) (token : AccessToken) (phase : VerifyPhase)
deriving DecidableEq, Repr

/-! ### The state -/

structure User where
  active : Bool := true
  tokenVersion : ℕ := 1
deriving DecidableEq, Repr

/-- A call of `refresh` that has ended, at a moment.  `current` is what the family holds then, and
`rotatedAt` the moment at which the presented token had been rotated. -/
structure Refreshed where
  tab : Option ℕ
  since : Revocations
  presented : RefreshToken
  result : Except AuthError RefreshToken
  current : Option Jti
  rotatedAt : Option ℕ
  time : ℕ

/-- An access token that has passed the verification. -/
structure Accepted where
  since : Revocations
  token : AccessToken
deriving DecidableEq, Repr

/-- The tables, the keys and the calls.  `reads` counts the transactions; from `handed` on there are
ghosts: the tokens that have been issued and handed out, when tokens have been rotated, who has
drawn a fresh identifier, and what has happened. -/
structure State where
  now : ℕ := 0
  users : UserId → Option User := fun _ => none
  families : Expiring FamilyId Jti := fun _ => none
  rotated : Expiring Jti RefreshToken := fun _ => none
  denied : Expiring Jti Unit := fun _ => none
  minimum : Expiring UserId ℕ := fun _ => none
  fresh : ℕ := 0
  calls : ℕ → Option Call := fun _ => none
  held : ℕ → Option RefreshToken := fun _ => none
  reads : ℕ := 0
  handed : List RefreshToken := []
  handedAccess : List AccessToken := []
  rotatedAt : Jti → Option ℕ := fun _ => none
  owner : ℕ → ℕ := fun _ => 0
  revocations : Revocations := {}
  refreshes : List Refreshed := []
  accepted : List Accepted := []

namespace State

variable (s : State)

/-- A call goes on. -/
def goOn (i : ℕ) (c : Call) : State :=
  { s with calls := Function.update s.calls i (some c) }

def done (i : ℕ) : State :=
  { s with calls := Function.update s.calls i none }

/-- A fresh identifier is drawn, `s.fresh`. -/
def draw (i : ℕ) : State :=
  { s with
    fresh := s.fresh + 1
    owner := Function.update s.owner s.fresh i }

/-- A pair of tokens is handed out; a tab keeps the refresh token. -/
def handOut (tab : Option ℕ) (access : AccessToken) (token : RefreshToken) : State :=
  { s with
    handedAccess := access :: s.handedAccess
    held := tab.elim s.held fun tab => Function.update s.held tab (some token) }

/-- A call of `refresh` ends; `before` is when its token had been rotated. -/
def ended (i : ℕ) (tab : Option ℕ) (since : Revocations) (token : RefreshToken)
    (result : Except AuthError RefreshToken) (before : Option ℕ) : State :=
  { s.done i with
    refreshes :=
      { tab := tab
        since := since
        presented := token
        result := result
        current := s.families.get s.now token.familyId
        rotatedAt := before
        time := s.now } :: s.refreshes }

def failed (i : ℕ) (tab : Option ℕ) (since : Revocations) (token : RefreshToken)
    (e : AuthError) : State :=
  s.ended i tab since token (.error e) (s.rotatedAt token.jti)

/-- The script, in one step, with `grace` seconds: the family goes over to the new token, or the
token that the presented one was rotated to is handed out again, or it is a replay. -/
def rotate (grace i : ℕ) (tab : Option ℕ) (since : Revocations) (token : RefreshToken)
    (access : AccessToken) (issued : RefreshToken) (ttl : ℕ) : State :=
  match s.families.get s.now token.familyId with
  | none => s.failed i tab since token .sessionGone
  | some current =>
      if current = token.jti then
        let t :=
          { s with
            families := s.families.set token.familyId issued.jti (s.now + ttl * second)
            rotated :=
              if 0 < grace then s.rotated.set token.jti issued (s.now + grace * second)
              else s.rotated
            handed := issued :: s.handed
            rotatedAt := Function.update s.rotatedAt token.jti (some s.now) }
        (t.handOut tab access issued).ended i tab since token (.ok issued) (s.rotatedAt token.jti)
      else
        match s.rotated.get s.now token.jti with
        | some handedOut =>
            (s.handOut tab access handedOut).ended i tab since token (.ok handedOut)
              (s.rotatedAt token.jti)
        | none =>
            { s with families := s.families.del token.familyId }.failed i tab since token .replayed

/-- The next step of a call of `refresh`. -/
def refreshStep (grace i : ℕ) (tab : Option ℕ) (since : Revocations) (token : RefreshToken) :
    RefreshPhase → State
  | .decode =>
      if expired s.now token.exp then s.failed i tab since token .tokenExpired
      else s.goOn i (.refresh tab since token .family)
  | .family =>
      match s.families.get s.now token.familyId with
      | none => s.failed i tab since token .sessionGone
      | some _ => s.goOn i (.refresh tab since token .account)
  | .account =>
      let t := { s with reads := s.reads + 1 }
      match s.users token.sub with
      | none => t.failed i tab since token .disabled
      | some user =>
          if user.active = false then t.failed i tab since token .disabled
          else if user.tokenVersion ≠ token.tokenVersion then
            t.goOn i (.refresh tab since token .stale)
          else t.goOn i (.refresh tab since token (.access user.tokenVersion t.reads))
  | .stale =>
      { s with families := s.families.del token.familyId }.failed i tab since token .outdated
  | .access version readAt =>
      let access := ⟨token.sub, s.fresh, version, expiryOf s.now accessTtl / second, token.familyId,
        readAt⟩
      (s.draw i).goOn i (.refresh tab since token (.mint version readAt access))
  | .mint version readAt access =>
      let expiresAt := expiryOf s.now refreshTtl
      let issued := ⟨token.sub, token.familyId, s.fresh, version, expiresAt / second, readAt⟩
      (s.draw i).goOn i (.refresh tab since token (.time access issued expiresAt))
  | .time access issued expiresAt =>
      s.goOn i (.refresh tab since token (.rotate access issued (secondsUntil s.now expiresAt)))
  | .rotate access issued ttl => s.rotate grace i tab since token access issued ttl

/-- The next step of a call of `login`. -/
def loginStep (i tab : ℕ) (user : UserId) : LoginPhase → State
  | .account =>
      let t := { s with reads := s.reads + 1 }
      match s.users user with
      | none => t.done i
      | some row =>
          if row.active = false then t.done i
          else (t.draw i).goOn i (.login tab user (.access row.tokenVersion t.reads s.fresh))
  | .access version readAt family =>
      let access := ⟨user, s.fresh, version, expiryOf s.now accessTtl / second, family, readAt⟩
      (s.draw i).goOn i (.login tab user (.mint version readAt access))
  | .mint version readAt access =>
      let expiresAt := expiryOf s.now refreshTtl
      let issued := ⟨user, access.session, s.fresh, version, expiresAt / second, readAt⟩
      (s.draw i).goOn i (.login tab user (.time access issued expiresAt))
  | .time access issued expiresAt =>
      s.goOn i (.login tab user (.store access issued (secondsUntil s.now expiresAt)))
  | .store access issued ttl =>
      let t :=
        { s with
          families := s.families.set issued.familyId issued.jti (s.now + ttl * second)
          handed := issued :: s.handed }
      (t.handOut (some tab) access issued).done i

/-- A call of `logout` ends. -/
def loggedOut (i : ℕ) (access : AccessToken) : State :=
  { s.done i with
    revocations :=
      { s.revocations with logouts := (access.session, s.reads) :: s.revocations.logouts } }

/-- The next step of a call of `logout`. -/
def logoutStep (i : ℕ) (access : AccessToken) (refresh : Option RefreshToken) :
    LogoutPhase → State
  | .time => s.goOn i (.logout access refresh (.deny (remaining s.now access.exp)))
  | .deny remaining =>
      let t :=
        if 0 < remaining then
          { s with denied := s.denied.set access.jti () (s.now + remaining * second) }
        else s
      match refresh with
      | none => t.loggedOut i access
      | some token => t.goOn i (.logout access refresh (.decode token))
  | .decode token =>
      if expired s.now token.exp then s.loggedOut i access
      else s.goOn i (.logout access refresh (.delete token))
  | .delete token => { s with families := s.families.del token.familyId }.loggedOut i access

/-- `bump_token_version` of the repository. -/
def bump (user : UserId) : State :=
  { s with
    users := Function.update s.users user
      ((s.users user).map fun row => { row with tokenVersion := row.tokenVersion + 1 })
    reads := s.reads + 1 }

/-- The next step of a call of `revoke_all_sessions`. -/
def revokeStep (i : ℕ) (user : UserId) : RevokePhase → State
  | .bump =>
      let t := s.bump user
      t.goOn i (.revoke user (.mark (((t.users user).map (·.tokenVersion)).getD 1) s.reads))
  | .mark minimum readAt =>
      { s.done i with
        minimum := s.minimum.set user minimum (s.now + accessTtl * second)
        revocations :=
          { s.revocations with users := (user, readAt) :: s.revocations.users } }

/-- The next step of a call of `describe_access_token`. -/
def verifyStep (i : ℕ) (since : Revocations) (token : AccessToken) : VerifyPhase → State
  | .decode =>
      if expired s.now token.exp then s.done i else s.goOn i (.verify since token .denied)
  | .denied =>
      if (s.denied.get s.now token.jti).isSome then s.done i
      else s.goOn i (.verify since token .minimum)
  | .minimum =>
      if (s.minimum.get s.now token.sub).any (token.tokenVersion < ·) then s.done i
      else { s.done i with accepted := ⟨since, token⟩ :: s.accepted }

/-- The next step of a call. -/
def callStep (grace i : ℕ) : Call → State
  | .refresh tab since token phase => s.refreshStep grace i tab since token phase
  | .login tab user phase => s.loginStep i tab user phase
  | .logout access refresh phase => s.logoutStep i access refresh phase
  | .revoke user phase => s.revokeStep i user phase
  | .verify since token phase => s.verifyStep i since token phase

/-- A call begins, under a number that no other call has. -/
def start (i : ℕ) (c : Call) : Option State :=
  if s.calls i = none then some (s.goOn i c) else none

end State

inductive Action where
  | tick (microseconds : ℕ)
  | step (i : ℕ)
  /-- A call raises, or its process dies. -/
  | abandon (i : ℕ)
  | createUser (user : UserId)
  | setActive (user : UserId) (active : Bool)
  | bumpTokenVersion (user : UserId)
  | login (i tab : ℕ) (user : UserId)
  /-- A tab is opened beside another one, with the cookie that there is. -/
  | openTab (tab beside : ℕ)
  /-- A tab presents the newest token it has received. -/
  | refresh (i tab : ℕ)
  /-- Someone presents a token that was handed out once. -/
  | present (i : ℕ) (token : RefreshToken)
  | logout (i : ℕ) (access : AccessToken) (refresh : Option RefreshToken)
  | revokeAll (i : ℕ) (user : UserId)
  | verify (i : ℕ) (token : AccessToken)
deriving DecidableEq, Repr

namespace State

def step (grace : ℕ) : Action → State → Option State
  | .tick microseconds, s => some { s with now := s.now + microseconds }
  | .step i, s => (s.calls i).map (s.callStep grace i)
  | .abandon i, s => some (s.done i)
  | .createUser user, s =>
      if s.users user = none then
        some { s with users := Function.update s.users user (some {}) }
      else none
  | .setActive user active, s =>
      some
        { s with
          users := Function.update s.users user
            ((s.users user).map fun row => { row with active := active }) }
  | .bumpTokenVersion user, s => some (s.bump user)
  | .login i tab user, s => s.start i (.login tab user .account)
  | .openTab tab beside, s => some { s with held := Function.update s.held tab (s.held beside) }
  | .refresh i tab, s => (s.held tab).bind fun token =>
      s.start i (.refresh (some tab) s.revocations token .decode)
  | .present i token, s =>
      if token ∈ s.handed then s.start i (.refresh none s.revocations token .decode) else none
  | .logout i access refresh, s =>
      if access ∈ s.handedAccess ∧ refresh.all (· ∈ s.handed) then
        s.start i (.logout access refresh .time)
      else none
  | .revokeAll i user, s => s.start i (.revoke user .bump)
  | .verify i token, s =>
      if token ∈ s.handedAccess then s.start i (.verify s.revocations token .decode) else none

end State

namespace State

variable {s : State} {i j : ℕ} {c c' : Call}

theorem calls_goOn (h : (s.goOn i c).calls j = some c') :
  (j = i ∧ c' = c) ∨ (j ≠ i ∧ s.calls j = some c')
  := by
  by_cases same : j = i
  · left
    subst same
    have self : (s.goOn j c).calls j = some c := Function.update_self ..
    exact ⟨rfl, (Option.some.inj (self.symm.trans h)).symm⟩
  · right
    have other : (s.goOn i c).calls j = s.calls j := Function.update_of_ne same ..
    exact ⟨same, other.symm.trans h⟩

theorem calls_done (h : (s.done i).calls j = some c) :
  j ≠ i ∧ s.calls j = some c
  := by
  by_cases same : j = i
  · subst same
    have self : (s.done j).calls j = none := Function.update_self ..
    cases self.symm.trans h
  · have other : (s.done i).calls j = s.calls j := Function.update_of_ne same ..
    exact ⟨same, other.symm.trans h⟩

end State

/-- The service and its clients, with a period of grace in seconds. -/
def service (grace : ℕ) : Machine State Action where
  init s := s = {}
  step := State.step grace

end Lumina.Identity
