import Lumina.Library.Expiring
import Lumina.Library.Table
import Lumina.Library.Transition
import Mathlib.Algebra.GroupWithZero.Nat

/-!
# The throttling of password attempts

Any number of attempts are under way at the same time, by `login` and by `change_password`.  An
attempt looks at the counter of its account, verifies the password, which takes long, and counts the
failure at last; a success deletes the counter.  The accounts are those of one tenant, and the
moments are in seconds.

The roles, the tokens and the audit are left out: they touch neither the counter nor the password.
-/

namespace Lumina.Identity.Throttling

open Transition

abbrev UserId := ℕ

structure Settings where
  loginMaxAttempts : ℕ := 5
  loginLockoutSeconds : ℕ := 900

/-- `verify_password`, `hash_password` and `needs_rehash`. -/
structure Hashing where
  verifyPassword : (password storedHash : String) → Bool
  hashPassword : String → String
  needsRehash : String → Bool
  dummyHash : String

structure User where
  id : UserId
  email : String
  passwordHash : String
  active : Bool
deriving DecidableEq, Repr

inductive AuthError where
  | accountLocked (retryAfterSeconds : ℕ)
  | invalidCredentials
  | notFound
deriving DecidableEq, Repr

inductive Request where
  | login (email password : String)
  | changePassword (userId : UserId) (currentPassword newPassword : String)
deriving DecidableEq, Repr

/-- The password that is verified. -/
def Request.password : Request → String
  | .login _ password => password
  | .changePassword _ currentPassword _ => currentPassword

/-- What an attempt does next. -/
inductive Phase where
  /-- `_require` of `change_password`. -/
  | require
  /-- `GET` of `ensure_not_locked`; `change_password` has read the account already. -/
  | check (email : String) (account : Option User)
  /-- `TTL` of `ensure_not_locked`. -/
  | locked (email : String)
  /-- `get_by_email` of `login`. -/
  | lookup (email : String)
  | verify (email : String) (account : Option User)
  /-- `record_password_failure`; whether the password was wrong is a ghost. -/
  | record (email : String) (wrong : Bool)
  /-- The writes of the transaction. -/
  | write (user : User)
  /-- `clear_password_failures` -/
  | clear (user : User)
  | ended (result : Except AuthError Unit)

structure Attempt where
  request : Request
  phase : Phase

/-- The users, the counters and the attempts.  `wrong` is a ghost: the verifications of a wrong
password since the counter of the account has been reset. -/
structure State where
  now : ℕ := 0
  users : List User := []
  failures : Expiring String ℕ := fun _ => none
  attempts : List Attempt := []
  wrong : String → ℕ := fun _ => 0

namespace State

variable (s : State)

/-- The failures that are counted. -/
def counted (email : String) : ℕ := (s.failures.get s.now email).getD 0

/-- `ensure_not_locked` raises. -/
def isLocked (cfg : Settings) (email : String) : Bool :=
  (s.failures.get s.now email).any fun raw => cfg.loginMaxAttempts ≤ raw

/-- The seconds until the key is gone. -/
def ttl (email : String) : ℕ :=
  match s.failures email with
  | some entry => entry.expiresAt - s.now
  | none => 0

/-- `INCR` and `EXPIRE`, in one transaction; a key that is to live for no time is gone at once. -/
def recordPasswordFailure (cfg : Settings) (email : String) : State :=
  { s with
    failures := s.failures.set email (s.counted email + 1) (s.now + cfg.loginLockoutSeconds)
    wrong :=
      if cfg.loginLockoutSeconds = 0 then Function.update s.wrong email 0 else s.wrong }

def clearPasswordFailures (email : String) : State :=
  { s with failures := s.failures.del email, wrong := Function.update s.wrong email 0 }

def setPasswordHash (id : UserId) (passwordHash : String) : State :=
  { s with users := Table.update (·.id = id) (fun user => { user with passwordHash }) s.users }

/-- A password has been verified. -/
def verified (email : String) (ok : Bool) : State :=
  if ok then s else { s with wrong := Function.update s.wrong email (s.wrong email + 1) }

end State

section Work

variable (cfg : Settings) (hashing : Hashing)

/-- What the password is compared with: where there is no account, a dummy. -/
def storedHash : Option User → String
  | none => hashing.dummyHash
  | some user => user.passwordHash

def passwordOk (request : Request) (account : Option User) : Bool :=
  hashing.verifyPassword request.password (storedHash hashing account)

/-- After the verification in `login`: a user that is missing or inactive is no better than a wrong
password. -/
def afterLogin (email : String) (account : Option User) (ok : Bool) : Phase :=
  match account with
  | none => .record email (!ok)
  | some user => if ok && user.active then .write user else .record email (!ok)

def afterChange (email : String) (account : Option User) (ok : Bool) : Phase :=
  match account with
  | none => .record email (!ok)
  | some user => if ok then .clear user else .record email true

/-- The next step of an attempt. -/
def Phase.work (request : Request) (s : State) : Phase → Option (Phase × State)
  | .require =>
    match request with
    | .login _ _ => none
    | .changePassword userId _ _ =>
      match s.users.find? (·.id = userId) with
      | none => some (.ended (.error .notFound), s)
      | some user => some (.check user.email user, s)
  | .check email account =>
    if s.isLocked cfg email then
      some (.locked email, s)
    else
      match account with
      | none => some (.lookup email, s)
      | some user => some (.verify email user, s)
  | .locked email => some (.ended (.error (.accountLocked (s.ttl email))), s)
  | .lookup email => some (.verify email (s.users.find? (·.email = email)), s)
  | .verify email account =>
    let ok := passwordOk hashing request account
    match request with
    | .login _ _ => some (afterLogin email account ok, s.verified email ok)
    | .changePassword _ _ _ => some (afterChange email account ok, s.verified email ok)
  | .record email _ =>
    some (.ended (.error .invalidCredentials), s.recordPasswordFailure cfg email)
  | .write user =>
    match request with
    | .login _ password =>
      if hashing.needsRehash user.passwordHash then
        some (.clear user, s.setPasswordHash user.id (hashing.hashPassword password))
      else
        some (.clear user, s)
    | .changePassword _ _ newPassword =>
      some (.ended (.ok ()), s.setPasswordHash user.id (hashing.hashPassword newPassword))
  | .clear user =>
    match request with
    | .login _ _ => some (.ended (.ok ()), s.clearPasswordFailures user.email)
    | .changePassword _ _ _ => some (.write user, s.clearPasswordFailures user.email)
  | .ended _ => none

/-- The first step of a request. -/
def Request.begin : Request → Phase
  | .login email _ => .check email none
  | .changePassword _ _ _ => .require

inductive Action where
  | start (request : Request)
  /-- The next step of an attempt. -/
  | work (i : ℕ)
  | tick (seconds : ℕ)
  /-- An administrator sets the status of a user. -/
  | setStatus (userId : UserId) (active : Bool)
deriving DecidableEq, Repr

/-- The wrong verifications are counted anew for an account whose counter has expired. -/
def State.tick (seconds : ℕ) (s : State) : State :=
  let now := s.now + seconds
  { s with
    now := now
    wrong := fun email =>
      if (s.failures.get s.now email).isSome ∧ s.failures.get now email = none then 0
      else s.wrong email }

def step : Action → State → Option State
  | .start request, s =>
    some { s with attempts := s.attempts ++ [⟨request, request.begin⟩] }
  | .work i, s => do
    let attempt ← s.attempts[i]?
    let (phase, s') ← attempt.phase.work cfg hashing attempt.request s
    some { s' with attempts := s.attempts.set i { attempt with phase := phase } }
  | .tick seconds, s => some (s.tick seconds)
  | .setStatus userId active, s =>
    some { s with users := Table.update (·.id = userId) (fun user => { user with active }) s.users }

/-- Nobody has tried anything yet. -/
def throttling : Machine State Action where
  init s := s.attempts = [] ∧ (∀ email, s.failures email = none) ∧ ∀ email, s.wrong email = 0
  step := step cfg hashing

end Work

/-! ### What is under way -/

/-- The attempt is about to verify a wrong password. -/
def Phase.verifying (hashing : Hashing) (request : Request) (email : String) : Phase → ℕ
  | .verify e account => if e = email ∧ passwordOk hashing request account = false then 1 else 0
  | _ => 0

/-- The attempt has verified a wrong password, and that has not been counted. -/
def Phase.uncounted (email : String) : Phase → ℕ
  | .record e true => if e = email then 1 else 0
  | _ => 0

namespace State

variable (hashing : Hashing) (s : State) (email : String)

def verifying : ℕ :=
  (s.attempts.map fun attempt => attempt.phase.verifying hashing attempt.request email).sum

def uncounted : ℕ := (s.attempts.map fun attempt => attempt.phase.uncounted email).sum

end State

/-- The failures that are counted and the wrong passwords under way are below the limit. -/
def HasRoom (cfg : Settings) (hashing : Hashing) (s : State) (email : String) : Prop :=
  s.counted email + s.uncounted email + s.verifying hashing email < cfg.loginMaxAttempts

/-- The account of which a wrong password is verified next: `login` has come to read it, and
`change_password`, which has it, to the check, which it passes. -/
def Phase.entering (cfg : Settings) (hashing : Hashing) (request : Request) (s : State) :
    Phase → Option String
  | .lookup email =>
    if passwordOk hashing request (s.users.find? (·.email = email)) then none else some email
  | .check email (some user) =>
    if s.isLocked cfg email || passwordOk hashing request (some user) then none else some email
  | _ => none

/-- An attempt goes on to verify a wrong password only if there is room for it. -/
def Admits (cfg : Settings) (hashing : Hashing) (s : State) : Action → Prop
  | .work i => ∀ attempt email, s.attempts[i]? = some attempt →
      attempt.phase.entering cfg hashing attempt.request s = some email →
        HasRoom cfg hashing s email
  | _ => True

instance (cfg : Settings) (hashing : Hashing) (s : State) (email : String) :
    Decidable (HasRoom cfg hashing s email) :=
  inferInstanceAs (Decidable (_ < _))

instance (cfg : Settings) (hashing : Hashing) (s : State) :
    (a : Action) → Decidable (Admits cfg hashing s a)
  | .work i =>
    decidable_of_iff
      (∀ attempt ∈ s.attempts[i]?, ∀ email ∈ attempt.phase.entering cfg hashing attempt.request s,
        HasRoom cfg hashing s email)
      ⟨fun all attempt email found entering => all attempt found email entering,
        fun all attempt found email entering => all attempt email found entering⟩
  | .start _ | .tick _ | .setStatus _ _ => isTrue trivial

/-! ### One step of an attempt -/

section Steps

variable {cfg : Settings} {hashing : Hashing} {s s' : State} {phase phase' : Phase}
  {request : Request} {email other : String}

/-- A failure is counted, unless its key lives for no time. -/
theorem counted_record (cfg : Settings) (s : State) (email : String) :
  (cfg.loginLockoutSeconds = 0 ∧ (s.recordPasswordFailure cfg email).counted email = 0) ∨
    (cfg.loginLockoutSeconds ≠ 0 ∧
      (s.recordPasswordFailure cfg email).counted email = s.counted email + 1)
  := by
  have entry := Expiring.set_self s.failures email (s.counted email + 1)
    (s.now + cfg.loginLockoutSeconds)
  by_cases zero : cfg.loginLockoutSeconds = 0
  · left
    have gone : (s.recordPasswordFailure cfg email).failures.get s.now email = none := by
      apply Expiring.get_eq_none_of_le entry
      show s.now + cfg.loginLockoutSeconds ≤ s.now
      omega
    exact ⟨zero, congrArg (·.getD 0) gone⟩
  · right
    have live : (s.recordPasswordFailure cfg email).failures.get s.now email =
        some (s.counted email + 1) := by
      apply Expiring.get_eq_some_iff.mpr
      exact ⟨s.now + cfg.loginLockoutSeconds, entry, by omega⟩
    exact ⟨zero, congrArg (·.getD 0) live⟩

theorem counted_record_of_ne (cfg : Settings) (s : State) (hne : other ≠ email) :
  (s.recordPasswordFailure cfg email).counted other = s.counted other
  := by
  have same := Expiring.set_of_ne s.failures hne (s.counted email + 1)
    (s.now + cfg.loginLockoutSeconds)
  exact congrArg (·.getD 0) (Expiring.get_congr same s.now)

theorem counted_clear_of_ne (s : State) (hne : other ≠ email) :
  (s.clearPasswordFailures email).counted other = s.counted other
  := by
  have same := Expiring.del_of_ne s.failures hne
  exact congrArg (·.getD 0) (Expiring.get_congr same s.now)

/-- A verification of a wrong password is one more, and is yet to be counted. -/
theorem wrong_verified (s : State) (email other : String) (ok : Bool) :
  (s.verified email ok).wrong other =
    s.wrong other + (Phase.record email (!ok)).uncounted other
  := by
  cases ok with
  | true => rfl
  | false =>
    show Function.update s.wrong email _ other = _ + if email = other then 1 else 0
    split
    next same =>
      rw [same, Function.update_self]
    next different =>
      rw [Function.update_of_ne (Ne.symm different)]
      rfl

theorem counted_verified (s : State) (email other : String) (ok : Bool) :
  (s.verified email ok).counted other = s.counted other
  := by
  cases ok
  all_goals rfl

theorem attempts_verified (s : State) (email : String) (ok : Bool) :
  (s.verified email ok).attempts = s.attempts
  := by
  cases ok
  all_goals rfl

theorem afterLogin_cases (email : String) (account : Option User) (ok : Bool) :
  afterLogin email account ok = .record email (!ok) ∨
    ok = true ∧ ∃ user, afterLogin email account ok = .write user
  := by
  cases account with
  | none => exact Or.inl rfl
  | some user =>
    cases ok with
    | false => exact Or.inl rfl
    | true =>
      cases active : user.active with
      | true => exact Or.inr ⟨rfl, user, if_pos active⟩
      | false =>
        left
        apply if_neg
        rw [active]
        exact Bool.false_ne_true

theorem afterChange_cases (email : String) (account : Option User) (ok : Bool) :
  afterChange email account ok = .record email (!ok) ∨
    ok = true ∧ ∃ user, afterChange email account ok = .clear user
  := by
  cases account with
  | none => exact Or.inl rfl
  | some user =>
    cases ok with
    | false => exact Or.inl rfl
    | true => exact Or.inr ⟨rfl, user, rfl⟩

/-- What a step of an attempt does to an account. -/
structure Works (cfg : Settings) (hashing : Hashing) (request : Request) (s s' : State)
    (phase phase' : Phase) (email : String) : Prop where
  attempts : s'.attempts = s.attempts
  wrong : s'.wrong email = 0 ∨
    s'.wrong email + s.counted email + phase.uncounted email ≤
      s.wrong email + s'.counted email + phase'.uncounted email
  bound : s'.wrong email + phase'.verifying hashing request email ≤
      s.wrong email + phase.verifying hashing request email ∨
    (phase.entering cfg hashing request s = some email ∧ s'.wrong email ≤ s.wrong email ∧
      phase'.verifying hashing request email ≤ 1)

/-- A step that leaves the counter alone and verifies nothing. -/
theorem works_quiet (attempts : s'.attempts = s.attempts) (wrong : s'.wrong = s.wrong)
    (failures : s'.failures = s.failures) (now : s'.now = s.now)
    (uncounted : phase.uncounted other = 0)
    (verifying : phase'.verifying hashing request other = 0) :
  Works cfg hashing request s s' phase phase' other
  := by
  have counted : s'.counted other = s.counted other := by
    unfold State.counted
    rw [failures, now]
  refine ⟨attempts, Or.inr ?_, Or.inl ?_⟩
  · rw [wrong, counted, uncounted]
    apply Nat.le_add_right
  · rw [wrong, verifying]
    apply Nat.le_add_right

/-- The step to the verification: of a right password it is nothing. -/
theorem works_entering {account : Option User}
    (entering : passwordOk hashing request account = false →
      phase.entering cfg hashing request s = some email)
    (uncounted : phase.uncounted other = 0) :
  Works cfg hashing request s s phase (.verify email account) other
  := by
  refine ⟨rfl, Or.inr ?_, ?_⟩
  · rw [uncounted]
    apply Nat.le_add_right
  · by_cases enters : email = other ∧ passwordOk hashing request account = false
    · have one : (Phase.verify email account).verifying hashing request other = 1 := if_pos enters
      rw [← enters.1]
      rw [← enters.1] at one
      exact Or.inr ⟨entering enters.2, Nat.le_refl _, Nat.le_of_eq one⟩
    · have none : (Phase.verify email account).verifying hashing request other = 0 :=
        if_neg enters
      left
      rw [none]
      apply Nat.le_add_right

/-- What is to be counted after a verification is what was about to be verified. -/
theorem uncounted_record (account : Option User) :
  (Phase.record email (!passwordOk hashing request account)).uncounted other =
    (Phase.verify email account).verifying hashing request other
  := by
  cases ok : passwordOk hashing request account with
  | true =>
    have right : ¬(email = other ∧ passwordOk hashing request account = false) := by
      rw [ok]
      rintro ⟨-, ⟨⟩⟩
    exact (if_neg right).symm
  | false => exact (if_congr (and_iff_left ok) rfl rfl).symm

/-- The verification itself: what was about to be verified has been. -/
theorem works_verified {account : Option User}
    (uncounted : phase'.uncounted other =
      (Phase.record email (!passwordOk hashing request account)).uncounted other)
    (verifying : phase'.verifying hashing request other = 0) :
  Works cfg hashing request s (s.verified email (passwordOk hashing request account))
    (.verify email account) phase' other
  := by
  refine ⟨attempts_verified s email _, Or.inr ?_, Or.inl ?_⟩
  · rw [wrong_verified, counted_verified, uncounted]
    have none : (Phase.verify email account).uncounted other = 0 := rfl
    omega
  · rw [wrong_verified, verifying, uncounted_record]
    apply Nat.le_refl

theorem works_recorded (wrong : Bool) (result : Except AuthError Unit) :
  Works cfg hashing request s (s.recordPasswordFailure cfg email) (.record email wrong)
    (.ended result) other
  := by
  have uncounted : (Phase.record email wrong).uncounted other ≤ if email = other then 1 else 0 := by
    cases wrong with
    | true => apply Nat.le_refl
    | false => apply Nat.zero_le
  have ended : (Phase.ended result).uncounted other = 0 := rfl
  have ended' : (Phase.ended result).verifying hashing request other = 0 := rfl
  have kept : other ≠ email ∨ cfg.loginLockoutSeconds ≠ 0 →
      (s.recordPasswordFailure cfg email).wrong other = s.wrong other := by
    unfold State.recordPasswordFailure
    dsimp only
    rintro (different | positive)
    · split
      · apply Function.update_of_ne different
      · rfl
    · rw [if_neg positive]
  by_cases same : other = email
  · subst same
    rw [if_pos rfl] at uncounted
    obtain ⟨zero, gone⟩ | ⟨positive, more⟩ := counted_record cfg s other
    · have reset : (s.recordPasswordFailure cfg other).wrong other = 0 := by
        unfold State.recordPasswordFailure
        dsimp only
        rw [if_pos zero, Function.update_self]
      refine ⟨rfl, Or.inl reset, Or.inl ?_⟩
      omega
    · have kept := kept (Or.inr positive)
      refine ⟨rfl, Or.inr ?_, Or.inl ?_⟩
      · omega
      · omega
  · rw [if_neg (Ne.symm same)] at uncounted
    have counted := counted_record_of_ne cfg s same
    have kept := kept (Or.inl same)
    refine ⟨rfl, Or.inr ?_, Or.inl ?_⟩
    · omega
    · omega

theorem works_cleared {user : User} (verifying : phase'.verifying hashing request other = 0) :
  Works cfg hashing request s (s.clearPasswordFailures user.email) (.clear user) phase' other
  := by
  have before : (Phase.clear user).uncounted other = 0 := rfl
  by_cases same : other = user.email
  · have reset : (s.clearPasswordFailures user.email).wrong other = 0 := by
      rw [same]
      apply Function.update_self
    refine ⟨rfl, Or.inl reset, Or.inl ?_⟩
    omega
  · have kept : (s.clearPasswordFailures user.email).wrong other = s.wrong other :=
      Function.update_of_ne same _ _
    have counted := counted_clear_of_ne s same
    refine ⟨rfl, Or.inr ?_, Or.inl ?_⟩
    · omega
    · omega

theorem work_cases (hwork : phase.work cfg hashing request s = some (phase', s')) (other : String) :
  Works cfg hashing request s s' phase phase' other
  := by
  cases phase with
  | require =>
    simp only [Phase.work] at hwork
    split at hwork
    next => cases hwork
    next =>
      split at hwork
      all_goals
        cases hwork
        exact works_quiet rfl rfl rfl rfl rfl rfl
  | check email account =>
    simp only [Phase.work] at hwork
    split at hwork
    next =>
      cases hwork
      exact works_quiet rfl rfl rfl rfl rfl rfl
    next free =>
      cases account with
      | none =>
        cases hwork
        exact works_quiet rfl rfl rfl rfl rfl rfl
      | some user =>
        cases hwork
        refine works_entering (fun wrong => ?_) rfl
        apply if_neg
        rw [Bool.or_eq_true, wrong]
        exact fun passes => passes.elim free Bool.false_ne_true
  | locked email =>
    cases hwork
    exact works_quiet rfl rfl rfl rfl rfl rfl
  | lookup email =>
    cases hwork
    refine works_entering (fun wrong => ?_) rfl
    apply if_neg
    rw [wrong]
    exact Bool.false_ne_true
  | verify email account =>
    cases request with
    | login _ password =>
      cases hwork
      obtain recorded | ⟨ok, user, written⟩ :=
        afterLogin_cases email account (passwordOk hashing (.login _ password) account)
      · rw [recorded]
        exact works_verified rfl rfl
      · rw [written]
        refine works_verified ?_ rfl
        rw [ok]
        rfl
    | changePassword userId currentPassword newPassword =>
      cases hwork
      obtain recorded | ⟨ok, user, cleared⟩ := afterChange_cases email account
        (passwordOk hashing (.changePassword userId currentPassword newPassword) account)
      · rw [recorded]
        exact works_verified rfl rfl
      · rw [cleared]
        refine works_verified ?_ rfl
        rw [ok]
        rfl
  | record email wrong =>
    cases hwork
    apply works_recorded
  | write user =>
    simp only [Phase.work] at hwork
    split at hwork
    next =>
      split at hwork
      all_goals
        cases hwork
        exact works_quiet rfl rfl rfl rfl rfl rfl
    next =>
      cases hwork
      exact works_quiet rfl rfl rfl rfl rfl rfl
  | clear user =>
    simp only [Phase.work] at hwork
    split at hwork
    all_goals
      cases hwork
      exact works_cleared rfl
  | ended result => cases hwork

end Steps

/-! ### Runs -/

/-- The wrong passwords that have been verified are counted or are about to be, and with those about
to be verified they fit below the limit. -/
structure Inv (cfg : Settings) (hashing : Hashing) (s : State) (email : String) : Prop where
  wrong : s.wrong email ≤ s.counted email + s.uncounted email
  bound : s.wrong email + s.verifying hashing email ≤ cfg.loginMaxAttempts

namespace Inv

variable {cfg : Settings} {hashing : Hashing} {s s' : State} {email : String}

theorem init (hs : (throttling cfg hashing).init s) : Inv cfg hashing s email := by
  obtain ⟨attempts, failures, wrong⟩ := hs
  have verifying : s.verifying hashing email = 0 := by
    unfold State.verifying
    rw [attempts]
    rfl
  constructor
  · rw [wrong]
    apply Nat.zero_le
  · rw [wrong, verifying]
    apply Nat.zero_le

theorem start (inv : Inv cfg hashing s email) (request : Request) :
  Inv cfg hashing { s with attempts := s.attempts ++ [⟨request, request.begin⟩] } email
  := by
  have new : (Request.begin request).verifying hashing request email = 0 := by
    cases request
    all_goals rfl
  constructor
  · refine Nat.le_trans inv.wrong (Nat.add_le_add_left ?_ _)
    unfold State.uncounted
    rw [List.map_append, List.sum_append]
    apply Nat.le_add_right
  · refine Nat.le_trans (Nat.add_le_add_left ?_ _) inv.bound
    unfold State.verifying
    rw [List.map_append, List.sum_append, List.map_singleton, List.sum_singleton, new]
    apply Nat.le_refl

/-- When a key expires, its account is counted anew. -/
theorem tick (inv : Inv cfg hashing s email) (seconds : ℕ) :
  Inv cfg hashing (s.tick seconds) email
  := by
  have wrong_le : (s.tick seconds).wrong email ≤ s.wrong email := by
    unfold State.tick
    dsimp only
    split
    · apply Nat.zero_le
    · apply Nat.le_refl
  have before := inv.wrong
  have uncounted : (s.tick seconds).uncounted email = s.uncounted email := rfl
  constructor
  · obtain gone | same := s.failures.get_later email (Nat.le_add_right s.now seconds)
    · cases live : s.failures.get s.now email with
      | none =>
        have none : s.counted email = 0 := congrArg (·.getD 0) live
        omega
      | some raw =>
        have reset : (s.tick seconds).wrong email = 0 := by
          apply if_pos
          rw [live]
          exact ⟨rfl, gone⟩
        omega
    · have counted : (s.tick seconds).counted email = s.counted email :=
        congrArg (·.getD 0) same
      omega
  · exact Nat.le_trans (Nat.add_le_add_right wrong_le _) inv.bound

theorem work (inv : Inv cfg hashing s email) {i : ℕ} {attempt : Attempt} {phase : Phase}
    (found : s.attempts[i]? = some attempt)
    (works : Works cfg hashing attempt.request s s' attempt.phase phase email)
    (admits : Admits cfg hashing s (.work i)) :
  Inv cfg hashing { s' with attempts := s.attempts.set i { attempt with phase := phase } } email
  := by
  set t : State := { s' with attempts := s.attempts.set i { attempt with phase := phase } }
  have uncounted : t.uncounted email + attempt.phase.uncounted email =
      s.uncounted email + phase.uncounted email :=
    Table.sum_map_set (fun attempt => attempt.phase.uncounted email) _ found
  have verifying : t.verifying hashing email +
        attempt.phase.verifying hashing attempt.request email =
      s.verifying hashing email + phase.verifying hashing attempt.request email :=
    Table.sum_map_set (fun attempt => attempt.phase.verifying hashing attempt.request email) _ found
  have counted : t.counted email = s'.counted email := rfl
  have wrong : t.wrong email = s'.wrong email := rfl
  have before := inv.wrong
  constructor
  · obtain reset | kept := works.wrong
    · omega
    · omega
  · obtain kept | ⟨entering, kept, one⟩ := works.bound
    · have bound := inv.bound
      omega
    · have room : HasRoom cfg hashing s email := admits attempt email found entering
      unfold HasRoom at room
      omega

/-- Every step that is admitted keeps the invariant, of every account. -/
theorem step (inv : Inv cfg hashing s email) {a : Action} (admits : Admits cfg hashing s a)
    (hstep : (throttling cfg hashing).step a s = some s') :
  Inv cfg hashing s' email
  := by
  cases a with
  | start request =>
    cases hstep
    apply inv.start
  | work i =>
    obtain ⟨attempt, found, hstep⟩ := Option.bind_eq_some_iff.mp hstep
    obtain ⟨⟨phase, t⟩, hwork, hstep⟩ := Option.bind_eq_some_iff.mp hstep
    cases hstep
    apply inv.work found (work_cases hwork email) admits
  | tick seconds =>
    cases hstep
    apply inv.tick
  | setStatus userId active =>
    cases hstep
    exact ⟨inv.wrong, inv.bound⟩

end Inv

section

variable {cfg : Settings} {hashing : Hashing}

end

section Example

def plainHashing : Hashing where
  verifyPassword password storedHash := password == storedHash
  hashPassword password := password
  needsRehash _ := false
  dummyHash := ""

def oneUser : State := { users := [⟨1, "ada", "right", true⟩] }

theorem oneUser_init (cfg : Settings) (hashing : Hashing) : (throttling cfg hashing).init oneUser :=
  ⟨rfl, fun _ => rfl, fun _ => rfl⟩

end Example

end Lumina.Identity.Throttling
