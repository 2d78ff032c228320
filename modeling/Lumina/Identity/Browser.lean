import Lumina.Identity.Sessions
import Lumina.Library.Table

/-!
# The sessions of a browser

The tabs of a browser share a jar, which holds the refresh cookie; each tab has an access token of
its own.  A request carries what there is when it is sent, an answer takes effect when it arrives,
and either may be lost.  In between the service takes the steps of the request, each of which reads
the clock, runs a transaction or sends one command to Redis, and the steps of all requests
interleave in any way.  What depends on the account (its password, its state, its token version) is
decided by whether a request is served, refused or outdated.

`Sound` says how the cookies that have been handed out, the families and the exchanges hang
together, and `Served` what a step of the service may do to keep it.
-/

namespace Lumina.Identity.Browser

open Transition

/-! ### Requests and answers -/

/-- The claims of an access token, as far as they are read. -/
structure Access where
  jti : Jti
  exp : ℕ
deriving DecidableEq, Repr

/-- The claims of a refresh token, as far as they are read. -/
structure Cookie where
  familyId : FamilyId
  jti : Jti
  exp : ℕ
deriving DecidableEq, Repr

/-- The requests below `/api/v1/auth/`, with what the browser has sent along.  A refresh is made by
`bootstrap` or by `sharedRefresh`. -/
inductive Request where
  | login
  | refresh (bootstrap : Bool) (cookie : Option Cookie)
  | logout (access : Option Access) (cookie : Option Cookie)
deriving DecidableEq, Repr

inductive Refusal where
  | required
  | invalid
  | expired
  | revoked
  | sessionGone
  /-- The password is wrong, the account is not in order, or the service has failed. -/
  | denied
  /-- The account has another token version. -/
  | outdated
  | replayed
deriving DecidableEq, Repr

/-- The answers; whether a logout has closed the session of its cookie is a ghost. -/
inductive Reply where
  | tokens (access : Access) (cookie : Cookie)
  | loggedOut (closed : Bool)
  | refused (why : Refusal)
deriving DecidableEq, Repr

/-- What the service does next with a request. -/
inductive Stage where
  /-- The token is decoded, or the transaction of a login runs. -/
  | sent
  /-- `GET` of the family. -/
  | family
  /-- The transaction of a refresh. -/
  | account
  /-- `DEL` of the family, as the cookie is of another version. -/
  | stale
  | access
  | mint (access : Access)
  /-- `_seconds_until`. -/
  | time (access : Access) (issued : Cookie) (expiresAt : ℕ)
  /-- `SET` of the family, or the script. -/
  | store (access : Access) (issued : Cookie) (ttl : ℕ)
  /-- `EXISTS` of the denial. -/
  | denial
  | remaining
  | deny (remaining : ℕ)
  /-- `decode_refresh` of a logout. -/
  | cookie
  /-- `DEL` of the family. -/
  | delete
  | answered (reply : Reply)
deriving DecidableEq, Repr

/-- A request and what becomes of it; when it was sent is a ghost. -/
structure Exchange where
  tab : ℕ
  request : Request
  sentAt : ℕ
  stage : Stage := .sent
  /-- The tab has neither got the answer nor given up. -/
  awaited : Bool := true
deriving DecidableEq, Repr

/-! ### The state -/

/-- The keys of the service, the jar, the tabs, and all requests so far. -/
structure State where
  now : ℕ := 0
  families : Expiring FamilyId Jti := fun _ => none
  rotated : Expiring Jti Cookie := fun _ => none
  denied : Expiring Jti Unit := fun _ => none
  fresh : ℕ := 0
  jar : Option Cookie := none
  accessToken : ℕ → Option Access := fun _ => none
  exchanges : List Exchange := []

namespace State

variable (s : State)

def put (i : ℕ) (e : Exchange) : State := { s with exchanges := s.exchanges.set i e }

def send (e : Exchange) : State := { s with exchanges := s.exchanges ++ [e] }

def setToken (tab : ℕ) (access : Option Access) : State :=
  { s with accessToken := Function.update s.accessToken tab access }

/-- `SET` of a family. -/
def register (cookie : Cookie) (ttl : ℕ) : State :=
  { s with families := s.families.set cookie.familyId cookie.jti (s.now + ttl * second) }

def close (familyId : FamilyId) : State := { s with families := s.families.del familyId }

/-- `_mint`, the access token. -/
def mintAccess : State × Stage :=
  ({ s with fresh := s.fresh + 1 }, .mint ⟨s.fresh, expiryOf s.now accessTtl / second⟩)

/-- `_mint`, the refresh token. -/
def mintRefresh (familyId : FamilyId) (access : Access) : State × Stage :=
  let expiresAt := expiryOf s.now refreshTtl
  ({ s with fresh := s.fresh + 1 },
    .time access ⟨familyId, s.fresh, expiresAt / second⟩ expiresAt)

/-- The script, in one step. -/
def rotate (grace : ℕ) (cookie : Cookie) (access : Access) (issued : Cookie) (ttl : ℕ) :
    State × Stage :=
  match s.families.get s.now cookie.familyId with
  | none => (s, .answered (.refused .sessionGone))
  | some current =>
      if current = cookie.jti then
        ({ s.register issued ttl with
            rotated :=
              if 0 < grace then s.rotated.set cookie.jti issued (s.now + grace * second)
              else s.rotated },
          .answered (.tokens access issued))
      else
        match s.rotated.get s.now cookie.jti with
        | some handedOut => (s, .answered (.tokens access handedOut))
        | none => (s.close cookie.familyId, .answered (.refused .replayed))

/-- `login` in the `i`-th request, with the right password.  The new family has its number. -/
def loginStep (i : ℕ) : Stage → Option (State × Stage)
  | .sent => some (s, .access)
  | .access => some s.mintAccess
  | .mint access => some (s.mintRefresh i access)
  | .time access issued expiresAt =>
      some (s, .store access issued (secondsUntil s.now expiresAt))
  | .store access issued ttl => some (s.register issued ttl, .answered (.tokens access issued))
  | _ => none

/-- `refresh`, as long as the account is in order. -/
def refreshStep (grace : ℕ) (cookie : Cookie) : Stage → Option (State × Stage)
  | .sent =>
      if expired s.now cookie.exp then some (s, .answered (.refused .expired))
      else some (s, .family)
  | .family =>
      match s.families.get s.now cookie.familyId with
      | none => some (s, .answered (.refused .sessionGone))
      | some _ => some (s, .account)
  | .account => some (s, .access)
  | .stale => some (s.close cookie.familyId, .answered (.refused .outdated))
  | .access => some s.mintAccess
  | .mint access => some (s.mintRefresh cookie.familyId access)
  | .time access issued expiresAt =>
      some (s, .store access issued (secondsUntil s.now expiresAt))
  | .store access issued ttl => some (s.rotate grace cookie access issued ttl)
  | _ => none

/-- `SET` of the denial, unless nothing remains. -/
def deny (access : Access) (remaining : ℕ) : State :=
  if 0 < remaining then
    { s with denied := s.denied.set access.jti () (s.now + remaining * second) }
  else s

/-- `require_authenticated` and `logout`. -/
def logoutStep (access : Access) (cookie : Option Cookie) : Stage → Option (State × Stage)
  | .sent =>
      if expired s.now access.exp then some (s, .answered (.refused .expired))
      else some (s, .denial)
  | .denial =>
      if (s.denied.get s.now access.jti).isSome then some (s, .answered (.refused .revoked))
      else some (s, .remaining)
  | .remaining => some (s, .deny (remaining s.now access.exp))
  | .deny remaining =>
      some (s.deny access remaining,
        if cookie = none then .answered (.loggedOut false) else .cookie)
  | .cookie => cookie.map fun cookie =>
      (s, if expired s.now cookie.exp then .answered (.loggedOut false) else .delete)
  | .delete => cookie.map fun cookie =>
      (s.close cookie.familyId, .answered (.loggedOut true))
  | _ => none

/-- The next step of the `i`-th request, if nothing is wrong with the account. -/
def serve (grace i : ℕ) : Request → Stage → Option (State × Stage)
  | .login, stage => s.loginStep i stage
  | .refresh _ (some cookie), stage => s.refreshStep grace cookie stage
  | .logout (some access) cookie, stage => s.logoutStep access cookie stage
  | .refresh _ none, .sent => some (s, .answered (.refused .invalid))
  | .logout none _, .sent => some (s, .answered (.refused .required))
  | _, _ => none

/-- Something is wrong with the account, or the service fails before the next step. -/
def refuse : Stage → Option (State × Stage)
  | .answered _ => none
  | _ => some (s, .answered (.refused .denied))

/-- The account has another token version than the cookie of a refresh. -/
def outdate : Stage → Option (State × Stage)
  | .account => some (s, .stale)
  | _ => none

/-- What `Set-Cookie` does. -/
def receive : Reply → State
  | .tokens _ cookie => { s with jar := some cookie }
  | .loggedOut _ => { s with jar := none }
  | .refused _ => s

/-- What the tab does with an answer, or without one. -/
def conclude (e : Exchange) (reply : Option Reply) : State :=
  match e.request, reply with
  | .logout _ _, _ => s.setToken e.tab none
  | _, some (.tokens access _) => s.setToken e.tab (some access)
  | .refresh false _, _ => s.setToken e.tab none
  | _, _ => s

/-- The page is gone, and nobody awaits the answers to its requests. -/
def reload (tab : ℕ) : State :=
  { s.setToken tab none with
    exchanges := Table.update (·.tab = tab) ({ · with awaited := false }) s.exchanges }

/-- A step of the service in the `i`-th request. -/
def advance (i : ℕ) (f : Request → Stage → Option (State × Stage)) : Option State := do
  let e ← s.exchanges[i]?
  let (t, stage) ← f e.request e.stage
  some (t.put i { e with stage })

/-- The end of the `i`-th request for its tab, which awaits it. -/
def settle (i : ℕ) (f : Exchange → Option State) : Option State := do
  let e ← s.exchanges[i]?
  if e.awaited then
    let t ← f e
    some (t.put i { e with awaited := false })
  else none

end State

inductive Action where
  | tick (microseconds : ℕ)
  | login (tab : ℕ)
  | bootstrap (tab : ℕ)
  | refresh (tab : ℕ)
  | logout (tab : ℕ)
  | serve (i : ℕ)
  | refuse (i : ℕ)
  | outdate (i : ℕ)
  /-- The answer arrives; its body may be lost. -/
  | deliver (i : ℕ) (whole : Bool)
  /-- The tab gives up, as the request or the answer is lost or late. -/
  | lose (i : ℕ)
  /-- The page is loaded anew. -/
  | reload (tab : ℕ)
deriving DecidableEq, Repr

def step (grace : ℕ) : Action → State → Option State
  | .tick microseconds, s => some { s with now := s.now + microseconds }
  | .login tab, s => some (s.send { tab, request := .login, sentAt := s.now })
  | .bootstrap tab, s =>
      if s.accessToken tab = none then
        some (s.send { tab, request := .refresh true s.jar, sentAt := s.now })
      else none
  | .refresh tab, s =>
      some (s.send { tab, request := .refresh false s.jar, sentAt := s.now })
  | .logout tab, s =>
      some (s.send { tab, request := .logout (s.accessToken tab) s.jar, sentAt := s.now })
  | .serve i, s => s.advance i (s.serve grace i)
  | .refuse i, s => s.advance i fun _ => s.refuse
  | .outdate i, s => s.advance i fun _ => s.outdate
  | .deliver i whole, s => s.settle i fun e =>
      match e.stage with
      | .answered reply => some ((s.receive reply).conclude e (if whole then some reply else none))
      | _ => none
  | .lose i, s => s.settle i fun e => some (s.conclude e none)
  | .reload tab, s => some (s.reload tab)

/-- A browser and the service, with a period of grace in seconds. -/
def machine (grace : ℕ) : Machine State Action where
  init s := s = {}
  step := step grace

/-! ### What has been issued and what has ended -/

def Request.cookie? : Request → Option Cookie
  | .login => none
  | .refresh _ cookie => cookie
  | .logout _ cookie => cookie

def Request.access? : Request → Option Access
  | .logout access _ => access
  | _ => none

def Request.refreshes : Request → Bool
  | .refresh _ _ => true
  | _ => false

/-- The session is closed with this answer. -/
def Reply.closes : Reply → Bool
  | .loggedOut closed => closed
  | .refused .outdated => true
  | .refused .replayed => true
  | _ => false

namespace Stage

/-- The cookie that has been signed and not been handed out. -/
def draft? : Stage → Option Cookie
  | .time _ issued _ => some issued
  | .store _ issued _ => some issued
  | _ => none

/-- The family will be there until a second before the cookie expires. -/
def Covers (now : ℕ) : Stage → Prop
  | .time _ issued expiresAt => issued.exp * second ≤ expiresAt
  | .store _ issued ttl => issued.exp * second < now + ttl * second + second
  | _ => True

/-- A logout is past the check of its access token. -/
def passed : Stage → Bool
  | .denial => true
  | .remaining => true
  | .deny _ => true
  | .cookie => true
  | .delete => true
  | .answered (.loggedOut _) => true
  | _ => false

/-- There is no answer yet. -/
def Pending (stage : Stage) : Prop := ∀ reply, stage ≠ .answered reply

/-- The answer brings the cookie. -/
def issues (cookie : Cookie) : Stage → Bool
  | .answered (.tokens _ issued) => issued = cookie
  | _ => false

/-- The answer tells that the session is closed. -/
def closes : Stage → Bool
  | .answered reply => reply.closes
  | _ => false

end Stage

/-- The exchange has ended the session: it is a logout that has been accepted, a replay, or a
refresh of an account that has another version. -/
def Exchange.ends (e : Exchange) (familyId : FamilyId) : Bool :=
  e.stage.closes && e.request.cookie?.any (·.familyId = familyId)

namespace State

variable (s : State)

/-- There is an answer with the cookie. -/
def Issued (cookie : Cookie) : Prop := s.exchanges.any (·.stage.issues cookie) = true

/-- An exchange has ended the session. -/
def Ended (familyId : FamilyId) : Prop := s.exchanges.any (·.ends familyId) = true

/-- The session can be renewed. -/
def Live (familyId : FamilyId) : Prop := s.families.get s.now familyId ≠ none

/-- The request of this number is a login that has been answered. -/
def Opened (familyId : FamilyId) : Prop :=
  ∃ e, s.exchanges[familyId]? = some e ∧ e.request = .login ∧ ¬ e.stage.Pending

/-- A cookie that the `i`-th request may hand out. -/
structure Drafted (i : ℕ) (request : Request) (cookie : Cookie) : Prop where
  jti : cookie.jti < s.fresh
  exp : cookie.exp * second ≤ expiryOf s.now refreshTtl
  opened : request = .login → cookie.familyId = i
  renewed : ∀ presented, request.cookie? = some presented →
    cookie.familyId = presented.familyId ∧ presented.jti < cookie.jti ∧ presented.exp ≤ cookie.exp

/-- The browser has got the cookie of a request, a logout that has passed has been sent with an
access token that had not expired, what is about to be handed out may be so, and only a refresh or
an accepted logout closes a session. -/
structure Fits (i : ℕ) (e : Exchange) : Prop where
  cookie : ∀ cookie, e.request.cookie? = some cookie → s.Issued cookie
  sentAt : e.sentAt ≤ s.now
  passed : e.stage.passed = true →
    ∃ access, e.request.access? = some access ∧ expired e.sentAt access.exp = false
  draft : ∀ cookie, e.stage.draft? = some cookie → s.Drafted i e.request cookie
  covers : e.stage.Covers s.now
  closes : e.stage.closes = true → e.stage.passed = true ∨ e.request.refreshes = true

/-- The family holds the newest cookie of its session, until a second before the cookies expire. -/
structure Holds (familyId : FamilyId) (x : Entry Jti) : Prop where
  issued : ∃ cookie, s.Issued cookie ∧ cookie.familyId = familyId ∧ cookie.jti = x.value
  newest : ∀ cookie, s.Issued cookie → cookie.familyId = familyId → cookie.jti ≤ x.value
  covers : ∀ cookie, s.Issued cookie → cookie.familyId = familyId →
    cookie.exp * second < x.expiresAt + second

end State

/-- How the cookies, the keys and the exchanges hang together. -/
structure Sound (s : State) : Prop where
  exchanges : ∀ i e, s.exchanges[i]? = some e → s.Fits i e
  jar : ∀ cookie, s.jar = some cookie → s.Issued cookie
  rotated : ∀ jti x, s.rotated jti = some x → s.Issued x.value
  opened : ∀ cookie, s.Issued cookie → s.Opened cookie.familyId
  jti : ∀ cookie, s.Issued cookie → cookie.jti < s.fresh
  exp : ∀ cookie, s.Issued cookie → cookie.exp * second ≤ expiryOf s.now refreshTtl
  mono : ∀ a b, s.Issued a → s.Issued b → a.familyId = b.familyId → a.jti ≤ b.jti → a.exp ≤ b.exp
  families : ∀ f x, s.families f = some x → s.Holds f x
  closed : ∀ cookie, s.Issued cookie →
    (s.families cookie.familyId = none ↔ s.Ended cookie.familyId)

variable {s t : State} {e : Exchange} {i : ℕ}

theorem expired_earlier {now now' exp : ℕ} (h : expired now' exp = false) (le : now ≤ now') :
  expired now exp = false
  := by
  have young := of_decide_eq_false h
  apply decide_eq_false
  omega

theorem expiryOf_mono {now now' : ℕ} (le : now ≤ now') (ttl : ℕ) :
  expiryOf now ttl ≤ expiryOf now' ttl
  := by
  apply Nat.add_le_add_right le

theorem Stage.Covers.mono {now now' : ℕ} {stage : Stage} (h : stage.Covers now) (le : now ≤ now') :
  stage.Covers now'
  := by
  cases stage with
  | store access issued ttl =>
    have before : issued.exp * second < now + ttl * second + second := h
    show issued.exp * second < now' + ttl * second + second
    omega
  | time => exact h
  | _ => trivial

namespace State

theorem Drafted.mono {request : Request} {cookie : Cookie} (h : s.Drafted i request cookie)
    (now : s.now ≤ t.now) (fresh : s.fresh ≤ t.fresh) :
  t.Drafted i request cookie
  where
  jti := Nat.lt_of_lt_of_le h.jti fresh
  exp := Nat.le_trans h.exp (expiryOf_mono now refreshTtl)
  opened := h.opened
  renewed := h.renewed

theorem Fits.mono (h : s.Fits i e) (now : s.now ≤ t.now) (fresh : s.fresh ≤ t.fresh)
    (issued : ∀ cookie, s.Issued cookie → t.Issued cookie) :
  t.Fits i e
  where
  cookie cookie is := issued cookie (h.cookie cookie is)
  sentAt := Nat.le_trans h.sentAt now
  passed := h.passed
  draft cookie is := (h.draft cookie is).mono now fresh
  covers := h.covers.mono now
  closes := h.closes

theorem Holds.congr {f : FamilyId} {x : Entry Jti} (h : s.Holds f x)
    (issued : ∀ cookie, t.Issued cookie ↔ s.Issued cookie) :
  t.Holds f x
  where
  issued := by
    obtain ⟨cookie, mem, is⟩ := h.issued
    exact ⟨cookie, (issued cookie).mpr mem, is⟩
  newest cookie mem := h.newest cookie ((issued cookie).mp mem)
  covers cookie mem := h.covers cookie ((issued cookie).mp mem)

end State

/-- The keys of the sessions are as they were, and the exchanges issue and end nothing new. -/
theorem Sound.keep (h : Sound s) (now : s.now ≤ t.now) (fresh : s.fresh ≤ t.fresh)
    (families : t.families = s.families) (rotated : t.rotated = s.rotated)
    (issued : ∀ cookie, t.Issued cookie ↔ s.Issued cookie) (ended : ∀ f, t.Ended f ↔ s.Ended f)
    (opened : ∀ f, s.Opened f → t.Opened f) (jar : ∀ cookie, t.jar = some cookie → s.Issued cookie)
    (exchanges : ∀ i e, t.exchanges[i]? = some e → s.Fits i e ∨ t.Fits i e) :
  Sound t
  where
  exchanges i e at_ := by
    obtain fits | fits := exchanges i e at_
    · exact fits.mono now fresh fun cookie => (issued cookie).mpr
    · exact fits
  jar cookie is := (issued cookie).mpr (jar cookie is)
  rotated jti x is := by
    rw [rotated] at is
    exact (issued x.value).mpr (h.rotated jti x is)
  opened cookie mem := opened _ (h.opened cookie ((issued cookie).mp mem))
  jti cookie mem := Nat.lt_of_lt_of_le (h.jti cookie ((issued cookie).mp mem)) fresh
  exp cookie mem :=
    Nat.le_trans (h.exp cookie ((issued cookie).mp mem)) (expiryOf_mono now refreshTtl)
  mono a b issuedA issuedB := h.mono a b ((issued a).mp issuedA) ((issued b).mp issuedB)
  families f x is := by
    rw [families] at is
    exact (h.families f x is).congr issued
  closed cookie mem := by
    rw [families, ended]
    exact h.closed cookie ((issued cookie).mp mem)

/-! ### The steps of the service -/

namespace State

/-- An exchange has issued or ended nothing before it is answered. -/
theorem issued_put (at_ : s.exchanges[i]? = some e) (pending : e.stage.Pending) {e' : Exchange}
    (exchanges : t.exchanges = s.exchanges) (cookie : Cookie) :
  (t.put i e').Issued cookie ↔ s.Issued cookie ∨ e'.stage.issues cookie = true
  := by
  show (t.exchanges.set i e').any _ = true ↔ _
  rw [exchanges, Table.any_set_iff at_]
  · rfl
  · intro issues
    unfold Stage.issues at issues
    split at issues
    · case h_1 answered => exact absurd answered (pending _)
    · cases issues

theorem ended_put (at_ : s.exchanges[i]? = some e) (pending : e.stage.Pending) {e' : Exchange}
    (exchanges : t.exchanges = s.exchanges) (f : FamilyId) :
  (t.put i e').Ended f ↔ s.Ended f ∨ e'.ends f = true
  := by
  show (t.exchanges.set i e').any _ = true ↔ _
  rw [exchanges, Table.any_set_iff at_]
  · rfl
  · intro ends
    have closes := (Bool.and_eq_true_iff.mp ends).1
    unfold Stage.closes at closes
    split at closes
    · case h_1 answered => exact absurd answered (pending _)
    · cases closes

theorem opened_put (at_ : s.exchanges[i]? = some e) (pending : e.stage.Pending) {e' : Exchange}
    (exchanges : t.exchanges = s.exchanges) {f : FamilyId} (h : s.Opened f) :
  (t.put i e').Opened f
  := by
  obtain ⟨x, at_f, login, answered⟩ := h
  have other : i ≠ f := by
    rintro rfl
    rw [Option.some.inj (at_.symm.trans at_f)] at pending
    exact answered pending
  refine ⟨x, ?_, login, answered⟩
  show (t.exchanges.set i e')[f]? = some x
  rw [exchanges, List.getElem?_set_ne other]
  exact at_f

end State

/-- A session that has ended is one of which there was a cookie. -/
theorem Sound.issued_of_ended (h : Sound s) {f : FamilyId} (ended : s.Ended f) :
  ∃ cookie, s.Issued cookie ∧ cookie.familyId = f
  := by
  obtain ⟨x, mem, ends⟩ := List.any_eq_true.mp ended
  obtain ⟨j, at_⟩ := List.mem_iff_getElem?.mp mem
  obtain ⟨cookie, sent, same⟩ := (Option.any_eq_true _ _).mp (Bool.and_eq_true_iff.mp ends).2
  exact ⟨cookie, (h.exchanges j x at_).cookie cookie sent, of_decide_eq_true same⟩

/-- There is no cookie yet of the session that a login opens. -/
theorem Sound.not_issued (h : Sound s) (at_ : s.exchanges[i]? = some e)
    (pending : e.stage.Pending) {cookie : Cookie} (issued : s.Issued cookie) :
  cookie.familyId ≠ i
  := by
  intro same
  obtain ⟨x, at_x, -, answered⟩ := h.opened cookie issued
  rw [same] at at_x
  rw [Option.some.inj (at_.symm.trans at_x)] at pending
  exact answered pending

/-- The other parts of the state are as they were. -/
structure Keeps (s t : State) : Prop where
  now : t.now = s.now
  jar : t.jar = s.jar
  exchanges : t.exchanges = s.exchanges
  fresh : s.fresh ≤ t.fresh

/-- The request is a login, or its cookie is the one that the family holds. -/
def Exchange.Renews (e : Exchange) (s : State) : Prop :=
  e.request = .login ∨ ∃ presented x, e.request.cookie? = some presented ∧
    s.families presented.familyId = some x ∧ x.value = presented.jti

/-- What a step of the service does in the `i`-th request, and what is next. -/
inductive Served (s : State) (i : ℕ) (e : Exchange) : State → Stage → Prop
  | quiet {t : State} {stage : Stage} (keeps : Keeps s t) (families : t.families = s.families)
      (rotated : t.rotated = s.rotated)
      (issues : ∀ cookie, stage.issues cookie = true → s.Issued cookie)
      (closes : stage.closes = false)
      (passed : stage.passed = true → e.stage.passed = true ∨
        ∃ access, e.request.access? = some access ∧ expired s.now access.exp = false)
      (draft : ∀ cookie, stage.draft? = some cookie → t.Drafted i e.request cookie)
      (covers : stage.Covers s.now) : Served s i e t stage
  | closed {t : State} {reply : Reply} {cookie : Cookie} (keeps : Keeps s t)
      (sent : e.request.cookie? = some cookie)
      (families : t.families = s.families.del cookie.familyId) (rotated : t.rotated = s.rotated)
      (closes : reply.closes = true)
      (passed : (Stage.answered reply).passed = true → e.stage.passed = true)
      (kind : (Stage.answered reply).passed = true ∨ e.request.refreshes = true) :
      Served s i e t (.answered reply)
  | issued {t : State} {access : Access} {cookie : Cookie} {ttl : ℕ} (keeps : Keeps s t)
      (stored : e.stage = .store access cookie ttl) (renews : e.Renews s)
      (families : t.families =
        s.families.set cookie.familyId cookie.jti (s.now + ttl * second))
      (rotated : ∀ jti x, t.rotated jti = some x → s.rotated jti = some x ∨ x.value = cookie) :
      Served s i e t (.answered (.tokens access cookie))

/-- The exchanges still fit, one of them at another stage. -/
theorem Sound.fits_put (h : Sound s) (at_ : s.exchanges[i]? = some e) (pending : e.stage.Pending)
    {stage : Stage} (keeps : Keeps s t)
    (passed : stage.passed = true → e.stage.passed = true ∨
      ∃ access, e.request.access? = some access ∧ expired s.now access.exp = false)
    (draft : ∀ cookie, stage.draft? = some cookie → t.Drafted i e.request cookie)
    (covers : stage.Covers s.now)
    (closes : stage.closes = true → stage.passed = true ∨ e.request.refreshes = true) :
  ∀ j x, (t.put i { e with stage }).exchanges[j]? = some x → (t.put i { e with stage }).Fits j x
  := by
  have now : s.now ≤ t.now := Nat.le_of_eq keeps.now.symm
  have issued : ∀ cookie, s.Issued cookie → (t.put i { e with stage }).Issued cookie :=
    fun cookie is => (State.issued_put at_ pending keeps.exchanges cookie).mpr (Or.inl is)
  intro j x at_x
  have at_x : (t.exchanges.set i { e with stage })[j]? = some x := at_x
  rw [keeps.exchanges] at at_x
  obtain ⟨rfl, rfl⟩ | ⟨-, old⟩ := Table.of_getElem?_set at_x
  · have fits := h.exchanges j e at_
    refine ⟨fun cookie sent => issued cookie (fits.cookie cookie sent), ?_, ?_, ?_, ?_, closes⟩
    · exact Nat.le_trans fits.sentAt now
    · intro pass
      obtain before | ⟨access, is, young⟩ := passed pass
      · exact fits.passed before
      · exact ⟨access, is, expired_earlier young fits.sentAt⟩
    · exact fun cookie is => (draft cookie is).mono (Nat.le_refl _) (Nat.le_refl _)
    · exact covers.mono now
  · exact (h.exchanges j x old).mono now keeps.fresh issued

theorem Stage.issues_of_closes {reply : Reply} (closes : reply.closes = true) (cookie : Cookie) :
  (Stage.answered reply).issues cookie = false
  := by
  cases reply with
  | tokens => cases closes
  | _ => rfl

theorem Sound.quiet (h : Sound s) (at_ : s.exchanges[i]? = some e) (pending : e.stage.Pending)
    {stage : Stage} (keeps : Keeps s t) (families : t.families = s.families)
    (rotated : t.rotated = s.rotated)
    (issues : ∀ cookie, stage.issues cookie = true → s.Issued cookie)
    (closes : stage.closes = false)
    (exchanges : ∀ j x, (t.put i { e with stage }).exchanges[j]? = some x →
      (t.put i { e with stage }).Fits j x) :
  Sound (t.put i { e with stage })
  := by
  refine Sound.keep (t := t.put i { e with stage }) h (Nat.le_of_eq keeps.now.symm) keeps.fresh
    families rotated ?_ ?_ ?_ ?_ ?_
  · intro cookie
    rw [State.issued_put at_ pending keeps.exchanges]
    exact or_iff_left_of_imp (issues cookie)
  · intro f
    rw [State.ended_put at_ pending keeps.exchanges]
    apply or_iff_left_of_imp
    intro ends
    cases closes.symm.trans (Bool.and_eq_true_iff.mp ends).1
  · exact fun f => State.opened_put at_ pending keeps.exchanges
  · exact fun cookie is => h.jar cookie (keeps.jar.symm.trans is)
  · exact fun j x at_x => Or.inr (exchanges j x at_x)

theorem Sound.close (h : Sound s) (at_ : s.exchanges[i]? = some e) (pending : e.stage.Pending)
    {reply : Reply} {cookie : Cookie} (keeps : Keeps s t)
    (sent : e.request.cookie? = some cookie)
    (families : t.families = s.families.del cookie.familyId) (rotated : t.rotated = s.rotated)
    (closes : reply.closes = true)
    (exchanges : ∀ j x, (t.put i { e with stage := .answered reply }).exchanges[j]? = some x →
      (t.put i { e with stage := .answered reply }).Fits j x) :
  Sound (t.put i { e with stage := .answered reply })
  := by
  have now : s.now ≤ t.now := Nat.le_of_eq keeps.now.symm
  have issued : ∀ c, (t.put i { e with stage := .answered reply }).Issued c ↔ s.Issued c := by
    intro c
    rw [State.issued_put at_ pending keeps.exchanges, Stage.issues_of_closes closes]
    exact or_iff_left_of_imp nofun
  have ended : ∀ f, (t.put i { e with stage := .answered reply }).Ended f ↔
      s.Ended f ∨ cookie.familyId = f := by
    intro f
    rw [State.ended_put at_ pending keeps.exchanges]
    apply or_congr_right
    show (reply.closes && e.request.cookie?.any (·.familyId = f)) = true ↔ _
    rw [closes, sent, Bool.true_and, Option.any_some, decide_eq_true_iff]
  refine ⟨exchanges, ?_, ?_, ?_, ?_, ?_, ?_, ?_, ?_⟩
  · exact fun c is => (issued c).mpr (h.jar c (keeps.jar.symm.trans is))
  · intro jti x is
    have is : t.rotated jti = some x := is
    rw [rotated] at is
    exact (issued x.value).mpr (h.rotated jti x is)
  · exact fun c is => State.opened_put at_ pending keeps.exchanges (h.opened c ((issued c).mp is))
  · exact fun c is => Nat.lt_of_lt_of_le (h.jti c ((issued c).mp is)) keeps.fresh
  · exact fun c is => Nat.le_trans (h.exp c ((issued c).mp is)) (expiryOf_mono now refreshTtl)
  · exact fun a b is_a is_b => h.mono a b ((issued a).mp is_a) ((issued b).mp is_b)
  · intro f x is
    have is : t.families f = some x := is
    rw [families] at is
    exact (h.families f x (Expiring.of_del is).2).congr issued
  · intro c is
    show t.families c.familyId = none ↔ _
    rw [families, ended]
    by_cases same : c.familyId = cookie.familyId
    · rw [same, Expiring.del_self]
      exact iff_of_true rfl (Or.inr rfl)
    · rw [Expiring.del_of_ne s.families same, h.closed c ((issued c).mp is)]
      exact (or_iff_left_of_imp fun eq => absurd eq.symm same).symm

/-- A cookie has been handed out that is newer than those of its session. -/
structure Handed (s t : State) (cookie : Cookie) : Prop where
  issued : ∀ c, t.Issued c ↔ s.Issued c ∨ c = cookie
  latest : ∀ c, s.Issued c → c.familyId = cookie.familyId →
    c.jti < cookie.jti ∧ c.exp ≤ cookie.exp

namespace Handed

variable {cookie : Cookie}

theorem mono (handed : Handed s t cookie) (h : Sound s) {a b : Cookie} (issuedA : t.Issued a)
    (issuedB : t.Issued b) (same : a.familyId = b.familyId) (le : a.jti ≤ b.jti) :
  a.exp ≤ b.exp
  := by
  obtain oldA | rfl := (handed.issued a).mp issuedA
  · obtain oldB | rfl := (handed.issued b).mp issuedB
    · exact h.mono a b oldA oldB same le
    · exact (handed.latest a oldA same).2
  · obtain oldB | rfl := (handed.issued b).mp issuedB
    · exact absurd le (Nat.not_le.mpr (handed.latest b oldB same.symm).1)
    · exact Nat.le_refl _

/-- The other families hold what they have held. -/
theorem holds_of_ne (handed : Handed s t cookie) {f : FamilyId} (other : f ≠ cookie.familyId)
    {x : Entry Jti} (holds : s.Holds f x) :
  t.Holds f x
  where
  issued := by
    obtain ⟨c, issued, same⟩ := holds.issued
    exact ⟨c, (handed.issued c).mpr (Or.inl issued), same⟩
  newest c issued same := by
    obtain old | rfl := (handed.issued c).mp issued
    · exact holds.newest c old same
    · exact absurd same.symm other
  covers c issued same := by
    obtain old | rfl := (handed.issued c).mp issued
    · exact holds.covers c old same
    · exact absurd same.symm other

theorem holds_self (handed : Handed s t cookie) {expiresAt : ℕ}
    (covers : cookie.exp * second < expiresAt + second) :
  t.Holds cookie.familyId ⟨cookie.jti, expiresAt⟩
  where
  issued := ⟨cookie, (handed.issued cookie).mpr (Or.inr rfl), rfl, rfl⟩
  newest c issued same := by
    obtain old | rfl := (handed.issued c).mp issued
    · exact Nat.le_of_lt (handed.latest c old same).1
    · exact Nat.le_refl _
  covers c issued same := by
    have exp : c.exp ≤ cookie.exp := by
      obtain old | rfl := (handed.issued c).mp issued
      · exact (handed.latest c old same).2
      · exact Nat.le_refl _
    exact Nat.lt_of_le_of_lt (Nat.mul_le_mul_right second exp) covers

end Handed

/-- The cookies of a session are older than one that is about to be handed out, and the session has
not ended. -/
theorem Sound.latest (h : Sound s) (at_ : s.exchanges[i]? = some e) (pending : e.stage.Pending)
    {cookie : Cookie} (drafted : s.Drafted i e.request cookie) (renews : e.Renews s) :
  (∀ c, s.Issued c → c.familyId = cookie.familyId → c.jti < cookie.jti ∧ c.exp ≤ cookie.exp) ∧
    ¬ s.Ended cookie.familyId
  := by
  obtain login | ⟨presented, x, sent, found, current⟩ := renews
  · have family := drafted.opened login
    constructor
    · intro c issued same
      exact absurd (same.trans family) (h.not_issued at_ pending issued)
    · intro ended
      obtain ⟨c, issued, same⟩ := h.issued_of_ended ended
      exact h.not_issued at_ pending issued (same.trans family)
  · obtain ⟨family, newer, later⟩ := drafted.renewed presented sent
    have received := (h.exchanges i e at_).cookie presented sent
    constructor
    · intro c issued same
      have before : c.jti ≤ presented.jti := by
        rw [← current]
        exact (h.families _ x found).newest c issued (same.trans family)
      have exp := h.mono c presented issued received (same.trans family) before
      exact ⟨Nat.lt_of_le_of_lt before newer, Nat.le_trans exp later⟩
    · rw [family, ← h.closed presented received, found]
      nofun

/-- The session is one that a login has opened. -/
theorem Sound.opened_answer (h : Sound s) (at_ : s.exchanges[i]? = some e)
    (pending : e.stage.Pending) (keeps : Keeps s t) {cookie : Cookie}
    (drafted : s.Drafted i e.request cookie) (renews : e.Renews s) {reply : Reply} :
  (t.put i { e with stage := .answered reply }).Opened cookie.familyId
  := by
  obtain login | ⟨presented, x, sent, -⟩ := renews
  · have below := (List.getElem?_eq_some_iff.mp at_).1
    refine ⟨{ e with stage := .answered reply }, ?_, login, fun pending => pending _ rfl⟩
    show (t.exchanges.set i _)[cookie.familyId]? = _
    rw [keeps.exchanges, drafted.opened login]
    exact List.getElem?_set_self below
  · rw [(drafted.renewed presented sent).1]
    apply State.opened_put at_ pending keeps.exchanges
    exact h.opened presented ((h.exchanges i e at_).cookie presented sent)

theorem Sound.issue (h : Sound s) (at_ : s.exchanges[i]? = some e) (pending : e.stage.Pending)
    {access : Access} {cookie : Cookie} {ttl : ℕ} (keeps : Keeps s t)
    (stored : e.stage = .store access cookie ttl) (renews : e.Renews s)
    (families : t.families =
      s.families.set cookie.familyId cookie.jti (s.now + ttl * second))
    (rotated : ∀ jti x, t.rotated jti = some x → s.rotated jti = some x ∨ x.value = cookie)
    (exchanges : ∀ j x,
      (t.put i { e with stage := .answered (.tokens access cookie) }).exchanges[j]? = some x →
        (t.put i { e with stage := .answered (.tokens access cookie) }).Fits j x) :
  Sound (t.put i { e with stage := .answered (.tokens access cookie) })
  := by
  have now : s.now ≤ t.now := Nat.le_of_eq keeps.now.symm
  have fits := h.exchanges i e at_
  have drafted : s.Drafted i e.request cookie := fits.draft cookie (by rw [stored]; rfl)
  have covers : cookie.exp * second < s.now + ttl * second + second := by
    have covers := fits.covers
    rw [stored] at covers
    exact covers
  obtain ⟨latest, going⟩ := h.latest at_ pending drafted renews
  have handed :
      Handed s (t.put i { e with stage := .answered (.tokens access cookie) }) cookie := by
    refine ⟨fun c => ?_, latest⟩
    rw [State.issued_put at_ pending keeps.exchanges]
    apply or_congr_right
    show decide (cookie = c) = true ↔ _
    rw [decide_eq_true_iff]
    exact eq_comm
  have ended : ∀ f, (t.put i { e with stage := .answered (.tokens access cookie) }).Ended f ↔
      s.Ended f := by
    intro f
    rw [State.ended_put at_ pending keeps.exchanges]
    exact or_iff_left_of_imp nofun
  refine ⟨exchanges, ?_, ?_, ?_, ?_, ?_, fun _ _ => handed.mono h, ?_, ?_⟩
  · intro c is
    exact (handed.issued c).mpr (Or.inl (h.jar c (keeps.jar.symm.trans is)))
  · intro jti x is
    apply (handed.issued x.value).mpr
    obtain before | new := rotated jti x is
    · exact Or.inl (h.rotated jti x before)
    · exact Or.inr new
  · intro c is
    obtain old | new := (handed.issued c).mp is
    · exact State.opened_put at_ pending keeps.exchanges (h.opened c old)
    · rw [new]
      exact h.opened_answer at_ pending keeps drafted renews
  · intro c is
    apply Nat.lt_of_lt_of_le _ keeps.fresh
    obtain old | rfl := (handed.issued c).mp is
    · exact h.jti c old
    · exact drafted.jti
  · intro c is
    refine Nat.le_trans ?_ (expiryOf_mono now refreshTtl)
    obtain old | rfl := (handed.issued c).mp is
    · exact h.exp c old
    · exact drafted.exp
  · intro f x is
    have is : t.families f = some x := is
    rw [families] at is
    by_cases same : f = cookie.familyId
    · rw [same, Expiring.set_self] at is
      rw [← Option.some.inj is, same]
      exact handed.holds_self covers
    · rw [Expiring.set_of_ne _ same] at is
      exact handed.holds_of_ne same (h.families f x is)
  · intro c is
    show t.families c.familyId = none ↔ _
    rw [families, ended]
    by_cases same : c.familyId = cookie.familyId
    · rw [same, Expiring.set_self]
      exact iff_of_false nofun going
    · rw [Expiring.set_of_ne _ same]
      obtain old | rfl := (handed.issued c).mp is
      · exact h.closed c old
      · exact absurd rfl same

theorem Sound.served (h : Sound s) (at_ : s.exchanges[i]? = some e) (pending : e.stage.Pending)
    {stage : Stage} (served : Served s i e t stage) :
  Sound (t.put i { e with stage })
  := by
  cases served with
  | quiet keeps families rotated issues closes passed draft covers =>
    apply h.quiet at_ pending keeps families rotated issues closes
    apply h.fits_put at_ pending keeps passed draft covers
    intro yes
    cases closes.symm.trans yes
  | closed keeps sent families rotated closes passed kind =>
    apply h.close at_ pending keeps sent families rotated closes
    apply h.fits_put at_ pending keeps (fun pass => Or.inl (passed pass)) nofun trivial
    exact fun _ => kind
  | issued keeps stored renews families rotated =>
    apply h.issue at_ pending keeps stored renews families rotated
    exact h.fits_put at_ pending keeps nofun nofun trivial nofun

end Lumina.Identity.Browser
