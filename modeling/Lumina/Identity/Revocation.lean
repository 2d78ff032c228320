import Lumina.Identity.Rotation

/-!
# The revocation of sessions

After a logout no token of the session should be accepted any more, nor any token of the user after
`revoke_all_sessions`: not one that was there, and not one that a call issues later which had read
the user before.

This is not so.  A denial and a minimum of the token version are stored for a time that does not
count the leeway of the verification, a later minimum may be replaced by an earlier one, and a
logout denies one access token only.  `revocations_last` says that there is nothing else to go
wrong.
-/

namespace Lumina.Identity

open Transition

/-! ### What is expected of a revocation -/

/-- The revocations are meant for a token of a user and a session, whose user was read then. -/
def Revocations.Covers (since : Revocations) (sub : UserId) (session : FamilyId)
    (readAt : ℕ) : Prop :=
  (∃ x ∈ since.logouts, x.1 = session ∧ readAt ≤ x.2) ∨ ∃ x ∈ since.users, x.1 = sub ∧ readAt ≤ x.2

/-- No token has been accepted for which a revocation was meant that had finished before. -/
structure State.RevocationsLast (s : State) : Prop where
  access : ∀ e ∈ s.accepted, ¬e.since.Covers e.token.sub e.token.session e.token.readAt
  refresh : ∀ e ∈ s.refreshes, ∀ token, e.result = .ok token →
    ¬e.since.Covers e.presented.sub e.presented.familyId e.presented.readAt

namespace State

/-- The family of the session is gone. -/
def Gone (s : State) (session : FamilyId) : Prop :=
  s.families.get s.now session = none

/-- The access tokens that have been handed out for the session are expired, but for this one. -/
def Only (s : State) (access : AccessToken) : Prop :=
  ∀ a ∈ s.handedAccess, a.session = access.session → a = access ∨ expired s.now a.exp = true

/-- What is assumed of the state in which a logout takes a step: its own access token lives for a
second more, when it is over the other ones of the session are expired, and it deletes the family of
the session unless that is gone. -/
def Complete (s : State) (access : AccessToken) (refresh : Option RefreshToken) :
    LogoutPhase → Prop
  | .time => expired s.now access.exp = true ∨ s.now + second ≤ access.exp * second
  | .deny _ => refresh = none → s.Gone access.session ∧ s.Only access
  | .decode token => expired s.now token.exp = true → s.Gone access.session ∧ s.Only access
  | .delete token =>
      (token.familyId = access.session ∨ s.Gone access.session) ∧ s.Only access

end State

/-- What is assumed of the state in which a call takes a step: a logout is complete, no minimum is
replaced by a smaller one, and no key has run out that would keep a verification from accepting the
token. -/
def Call.Lasts (s : State) : Call → Prop
  | .logout access token phase => s.Complete access token phase
  | .revoke user (.mark minimum _) => ∀ e ∈ s.minimum user, e.value ≤ minimum
  | .verify _ token .denied => ∀ e ∈ s.denied token.jti, s.now < e.expiresAt
  | .verify _ token .minimum =>
      ∀ e ∈ s.minimum token.sub, token.tokenVersion < e.value → s.now < e.expiresAt
  | _ => True

/-- The assumption about a step of a run. -/
def Lasting (s : State) : Action → Prop
  | .step i => ∀ c ∈ s.calls i, c.Lasts s
  | _ => True

instance (since : Revocations) (sub : UserId) (session : FamilyId) (readAt : ℕ) :
    Decidable (since.Covers sub session readAt) :=
  inferInstanceAs (Decidable (_ ∨ _))

instance (s : State) (session : FamilyId) : Decidable (s.Gone session) :=
  inferInstanceAs (Decidable (_ = none))

instance (s : State) (access : AccessToken) : Decidable (s.Only access) :=
  inferInstanceAs (Decidable (∀ a ∈ s.handedAccess, _ → _ ∨ _))

instance (s : State) (access : AccessToken) (refresh : Option RefreshToken) :
    (phase : LogoutPhase) → Decidable (s.Complete access refresh phase)
  | .time => inferInstanceAs (Decidable (_ ∨ _))
  | .deny _ => inferInstanceAs (Decidable (_ → _ ∧ _))
  | .decode _ => inferInstanceAs (Decidable (_ → _ ∧ _))
  | .delete _ => inferInstanceAs (Decidable ((_ ∨ _) ∧ _))

instance (s : State) : (c : Call) → Decidable (c.Lasts s)
  | .logout access refresh phase => inferInstanceAs (Decidable (s.Complete access refresh phase))
  | .revoke user (.mark minimum _) =>
      inferInstanceAs (Decidable (∀ e ∈ s.minimum user, e.value ≤ minimum))
  | .verify _ token .denied =>
      inferInstanceAs (Decidable (∀ e ∈ s.denied token.jti, s.now < e.expiresAt))
  | .verify _ token .minimum =>
      inferInstanceAs (Decidable (∀ e ∈ s.minimum token.sub, token.tokenVersion < e.value →
        s.now < e.expiresAt))
  | .verify _ _ .decode | .revoke _ .bump | .refresh _ _ _ _ | .login _ _ _ =>
      inferInstanceAs (Decidable True)

instance (s : State) : (a : Action) → Decidable (Lasting s a)
  | .step i => inferInstanceAs (Decidable (∀ c ∈ s.calls i, c.Lasts s))
  | .tick _ | .abandon _ | .createUser _ | .setActive _ _ | .bumpTokenVersion _ | .login _ _ _
  | .openTab _ _ | .refresh _ _ | .present _ _ | .logout _ _ _ | .revokeAll _ _ | .verify _ _ =>
      inferInstanceAs (Decidable True)

/-! ### What has been read of a user -/

/-- A user, the version that has been read, and when. -/
abbrev Claim := UserId × ℕ × ℕ

def AccessToken.claim (token : AccessToken) : Claim :=
  (token.sub, token.tokenVersion, token.readAt)

def RefreshToken.claim (token : RefreshToken) : Claim :=
  (token.sub, token.tokenVersion, token.readAt)

def RefreshPhase.claims (user : UserId) : RefreshPhase → List Claim
  | .access version readAt => [(user, version, readAt)]
  | .mint version readAt token => [(user, version, readAt), token.claim]
  | .time token issued _ | .rotate token issued _ => [token.claim, issued.claim]
  | _ => []

def LoginPhase.claims (user : UserId) : LoginPhase → List Claim
  | .access version readAt _ => [(user, version, readAt)]
  | .mint version readAt token => [(user, version, readAt), token.claim]
  | .time token issued _ | .store token issued _ => [token.claim, issued.claim]
  | _ => []

def Call.claims : Call → List Claim
  | .refresh _ _ token phase => phase.claims token.sub
  | .login _ user phase => phase.claims user
  | _ => []

namespace State

/-- A token claims so, or a call may still issue one that does. -/
def Claimed (s : State) (x : Claim) : Prop :=
  (∃ token ∈ s.handed, token.claim = x) ∨ (∃ access ∈ s.handedAccess, access.claim = x) ∨
    ∃ i c, s.calls i = some c ∧ x ∈ c.claims

/-- The version of the user, as `revoke_all_sessions` reads it. -/
def version (s : State) (user : UserId) : ℕ :=
  ((s.users user).map (·.tokenVersion)).getD 1

/-- All that was read of the user until then is below the minimum, and the user is not. -/
structure Below (s : State) (user : UserId) (readAt minimum : ℕ) : Prop where
  old : readAt ≤ s.reads
  claims : ∀ version r, s.Claimed (user, version, r) → r ≤ readAt → version < minimum
  user : minimum ≤ s.version user

/-- The family of a session that has been logged in is gone. -/
def Over (s : State) (session : FamilyId) : Prop :=
  s.Gone session ∧ ∃ token ∈ s.handed, token.familyId = session

/-- The session is over, and its access tokens are denied or expired. -/
structure LoggedOut (s : State) (session : FamilyId) : Prop where
  closed : s.Over session
  access : ∀ a ∈ s.handedAccess, a.session = session →
    s.denied a.jti ≠ none ∨ expired s.now a.exp = true

/-- There is a minimum above all that was read of the user until then. -/
def Revoked (s : State) (user : UserId) (readAt : ℕ) : Prop :=
  ∃ minimum, s.Below user readAt minimum ∧ ∃ e, s.minimum user = some e ∧ minimum ≤ e.value

end State

/-- What the calls know of the revocations. -/
def Call.Heeds (s : State) : Call → Prop
  | .refresh _ since token phase =>
      since.logouts ⊆ s.revocations.logouts ∧ since.users ⊆ s.revocations.users ∧
        match phase with
        | .access _ _ => ∀ x ∈ since.users, x.1 = token.sub → x.2 < token.readAt
        | .mint _ _ access | .time access _ _ | .rotate access _ _ =>
            access.session = token.familyId ∧
              ∀ x ∈ since.users, x.1 = token.sub → x.2 < token.readAt
        | _ => True
  | .login _ _ (.time access issued _) | .login _ _ (.store access issued _) =>
      access.session = issued.familyId
  | .logout access _ phase =>
      access ∈ s.handedAccess ∧
        match phase with
        | .time => True
        | .deny remaining => expired s.now access.exp = true ∨ 0 < remaining
        | .decode _ | .delete _ => s.denied access.jti ≠ none ∨ expired s.now access.exp = true
  | .revoke user (.mark minimum readAt) => s.Below user readAt minimum
  | .verify since token phase =>
      since.logouts ⊆ s.revocations.logouts ∧ since.users ⊆ s.revocations.users ∧
        token ∈ s.handedAccess ∧
        match phase with
        | .decode => True
        | .denied => ∀ x ∈ since.logouts, x.1 = token.session → s.denied token.jti ≠ none
        | .minimum => ∀ x ∈ since.logouts, x.1 ≠ token.session
  | _ => True

/-- What the tables record of the revocations. -/
structure Records (s : State) : Prop where
  claimed : ∀ user version r, s.Claimed (user, version, r) →
    r ≤ s.reads ∧ ∃ row, s.users user = some row ∧ version ≤ row.tokenVersion
  sessions : ∀ a ∈ s.handedAccess, ∃ token ∈ s.handed, token.familyId = a.session
  calls : ∀ i c, s.calls i = some c → c.Heeds s
  logouts : ∀ x ∈ s.revocations.logouts, s.LoggedOut x.1
  users : ∀ x ∈ s.revocations.users, s.Revoked x.1 x.2
  last : s.RevocationsLast

/-- What a step does to that. -/
structure Later (s t : State) : Prop where
  now : s.now ≤ t.now
  reads : s.reads ≤ t.reads
  access : ∀ a ∈ t.handedAccess, a ∈ s.handedAccess ∨
    ¬s.Over a.session ∧ ∃ token ∈ t.handed, token.familyId = a.session
  handed : s.handed ⊆ t.handed
  handedAccess : s.handedAccess ⊆ t.handedAccess
  users : ∀ user row, s.users user = some row →
    ∃ row', t.users user = some row' ∧ row.tokenVersion ≤ row'.tokenVersion
  version : ∀ user, s.version user ≤ t.version user
  claims : ∀ user version r, t.Claimed (user, version, r) → s.Claimed (user, version, r) ∨
    s.reads < r ∧ r ≤ t.reads ∧ ∃ row, t.users user = some row ∧ version ≤ row.tokenVersion
  denied : ∀ j, s.denied j ≠ none → t.denied j ≠ none
  gone : ∀ session, s.Over session → t.Gone session
  minimum : ∀ user e, s.minimum user = some e →
    ∃ e', t.minimum user = some e' ∧ e.value ≤ e'.value
  logouts : s.revocations.logouts ⊆ t.revocations.logouts
  revoked : s.revocations.users ⊆ t.revocations.users

/-- Nothing has been done to it. -/
theorem Later.refl (s : State) :
  Later s s
  where
  now := Nat.le_refl _
  reads := Nat.le_refl _
  access := fun _ mem => .inl mem
  handed := List.Subset.refl _
  handedAccess := List.Subset.refl _
  users := fun _ row found => ⟨row, found, Nat.le_refl _⟩
  version := fun _ => Nat.le_refl _
  claims := fun _ _ _ claimed => .inl claimed
  denied := fun _ denied => denied
  gone := fun _ closed => closed.1
  minimum := fun _ e found => ⟨e, found, Nat.le_refl _⟩
  logouts := List.Subset.refl _
  revoked := List.Subset.refl _

theorem expired_mono {now now' exp : ℕ} (le : now ≤ now') (h : expired now exp = true) :
  expired now' exp = true
  := by
  unfold expired at h ⊢
  rw [decide_eq_true_iff] at h ⊢
  apply Nat.le_trans h le

namespace Later

variable {s t : State} (later : Later s t)
include later

theorem below {user : UserId} {readAt minimum : ℕ} (h : s.Below user readAt minimum) :
  t.Below user readAt minimum
  where
  old := Nat.le_trans h.old later.reads
  claims := by
    intro version r claimed le
    obtain claimed | ⟨new, -⟩ := later.claims user version r claimed
    · apply h.claims version r claimed le
    · cases Nat.not_lt.mpr (Nat.le_trans le h.old) new
  user := Nat.le_trans h.user (later.version user)

theorem keepsRevoked {user : UserId} {readAt : ℕ} (h : s.Revoked user readAt) :
  t.Revoked user readAt
  := by
  obtain ⟨minimum, below, e, found, le⟩ := h
  obtain ⟨e', found', le'⟩ := later.minimum user e found
  exact ⟨minimum, later.below below, e', found', Nat.le_trans le le'⟩

theorem shut {j exp : ℕ} (h : s.denied j ≠ none ∨ expired s.now exp = true) :
  t.denied j ≠ none ∨ expired t.now exp = true
  := by
  obtain denied | late := h
  · left
    apply later.denied j denied
  · right
    apply expired_mono later.now late

theorem loggedOut {session : FamilyId} (h : s.LoggedOut session) :
  t.LoggedOut session
  := by
  obtain ⟨token, mem, family⟩ := h.closed.2
  constructor
  · exact ⟨later.gone session h.closed, token, later.handed mem, family⟩
  · intro a mem same
    obtain mem | ⟨fresh, -⟩ := later.access a mem
    · apply later.shut (h.access a mem same)
    · rw [same] at fresh
      cases fresh h.closed

theorem heeds {c : Call} (h : c.Heeds s) :
  c.Heeds t
  := by
  cases c with
  | refresh tab since token phase =>
    obtain ⟨logouts, users, phase⟩ := h
    exact ⟨List.Subset.trans logouts later.logouts, List.Subset.trans users later.revoked, phase⟩
  | login tab user phase =>
    cases phase
    all_goals exact h
  | logout access refresh phase =>
    obtain ⟨mem, known⟩ := h
    refine ⟨later.handedAccess mem, ?_⟩
    cases phase with
    | time => trivial
    | deny remaining => exact known.imp_left (expired_mono later.now)
    | decode token => exact later.shut known
    | delete token => exact later.shut known
  | revoke user phase =>
    cases phase with
    | bump => trivial
    | mark minimum readAt => exact later.below h
  | verify since token phase =>
    obtain ⟨logouts, users, mem, known⟩ := h
    refine ⟨List.Subset.trans logouts later.logouts, List.Subset.trans users later.revoked,
      later.handedAccess mem, ?_⟩
    cases phase with
    | decode => trivial
    | denied => exact fun x mem same => later.denied _ (known x mem same)
    | minimum => exact known

end Later

namespace Records

variable {s t : State} {i : ℕ} {c c' : Call}

theorem later (h : Records s) (later : Later s t)
    (calls : ∀ j c, t.calls j = some c → s.calls j = some c ∨ c.Heeds t)
    (logouts : ∀ x ∈ t.revocations.logouts, x ∈ s.revocations.logouts ∨ t.LoggedOut x.1)
    (users : ∀ x ∈ t.revocations.users, x ∈ s.revocations.users ∨ t.Revoked x.1 x.2)
    (last : t.RevocationsLast) :
  Records t
  where
  claimed := by
    intro user version r claimed
    obtain claimed | ⟨-, read, row, found, le⟩ := later.claims user version r claimed
    · obtain ⟨read, row, found, le⟩ := h.claimed user version r claimed
      obtain ⟨row', found', le'⟩ := later.users user row found
      exact ⟨Nat.le_trans read later.reads, row', found', Nat.le_trans le le'⟩
    · exact ⟨read, row, found, le⟩
  sessions := by
    intro a mem
    obtain mem | ⟨-, known⟩ := later.access a mem
    · obtain ⟨token, mem, family⟩ := h.sessions a mem
      exact ⟨token, later.handed mem, family⟩
    · apply known
  calls := by
    intro j c hc
    obtain hc | heeds := calls j c hc
    · apply later.heeds (h.calls j c hc)
    · apply heeds
  logouts := by
    intro x mem
    obtain mem | loggedOut := logouts x mem
    · apply later.loggedOut (h.logouts x mem)
    · apply loggedOut
  users := by
    intro x mem
    obtain mem | revoked := users x mem
    · apply later.keepsRevoked (h.users x mem)
    · apply revoked
  last := last

/-- The calls and what has happened are as they were. -/
theorem keep (h : Records s) (later : Later s t) (calls : t.calls = s.calls)
    (revocations : t.revocations = s.revocations) (accepted : t.accepted = s.accepted)
    (refreshes : t.refreshes = s.refreshes) :
  Records t
  := by
  apply h.later later
  · rw [calls]
    exact fun _ _ hc => .inl hc
  · rw [revocations]
    exact fun _ mem => .inl mem
  · rw [revocations]
    exact fun _ mem => .inl mem
  · constructor
    · rw [accepted]
      apply h.last.access
    · rw [refreshes]
      apply h.last.refresh

end Records

/-! ### The accesses -/

namespace State

variable {s t : State} {i : ℕ} {c : Call} {x : Claim}

theorem Claimed.of_done (h : (s.done i).Claimed x) :
  s.Claimed x
  := by
  obtain handed | access | ⟨j, c, hc, mem⟩ := h
  · left
    apply handed
  · right
    left
    apply access
  · right
    right
    exact ⟨j, c, (calls_done hc).2, mem⟩

theorem Claimed.of_goOn (h : (s.goOn i c).Claimed x) :
  s.Claimed x ∨ x ∈ c.claims
  := by
  obtain handed | access | ⟨j, c', hc, mem⟩ := h
  · left
    left
    apply handed
  · left
    right
    left
    apply access
  · obtain ⟨-, rfl⟩ | ⟨-, hc⟩ := calls_goOn hc
    · right
      apply mem
    · left
      right
      right
      exact ⟨j, c', hc, mem⟩

/-- Tokens are handed out whose claims there were. -/
theorem Claimed.of_handOut (h : t.Claimed x) {access : AccessToken} (calls : t.calls = s.calls)
    (handedAccess : t.handedAccess = access :: s.handedAccess) (claimed : s.Claimed access.claim)
    (handed : ∀ token ∈ t.handed, s.Claimed token.claim) :
  s.Claimed x
  := by
  obtain ⟨token, mem, rfl⟩ | ⟨a, mem, rfl⟩ | ⟨j, c, hc, mem⟩ := h
  · apply handed token mem
  · rw [handedAccess] at mem
    obtain rfl | mem := List.mem_cons.mp mem
    · apply claimed
    · exact .inr (.inl ⟨a, mem, rfl⟩)
  · rw [calls] at hc
    exact .inr (.inr ⟨j, c, hc, mem⟩)

theorem Claimed.of_handed {token : RefreshToken} (mem : token ∈ s.handed) :
  s.Claimed token.claim
  := .inl ⟨token, mem, rfl⟩

theorem Claimed.of_call (hc : s.calls i = some c) (mem : x ∈ c.claims) :
  s.Claimed x
  := .inr (.inr ⟨i, c, hc, mem⟩)

end State

namespace Records

variable {s t : State} {i : ℕ} {c c' : Call}

theorem done (h : Records s) (i : ℕ) :
  Records (s.done i)
  := by
  apply h.later (t := s.done i)
  · exact { Later.refl s with claims := fun _ _ _ claimed => .inl claimed.of_done }
  · intro j c hc
    left
    apply (State.calls_done hc).2
  · exact fun _ mem => .inl mem
  · exact fun _ mem => .inl mem
  · exact ⟨h.last.access, h.last.refresh⟩

/-- A call goes on with claims that there were. -/
theorem goOn (h : Records s) (heeds : c.Heeds s) (claims : ∀ x ∈ c.claims, s.Claimed x) :
  Records (s.goOn i c)
  := by
  have later : Later s (s.goOn i c) := by
    refine { Later.refl s with claims := ?_ }
    intro user version r claimed
    left
    obtain claimed | mem := claimed.of_goOn
    · apply claimed
    · apply claims _ mem
  apply h.later later
  · intro j c' hc
    obtain ⟨-, rfl⟩ | ⟨-, hc⟩ := State.calls_goOn hc
    · right
      apply later.heeds heeds
    · left
      apply hc
  · exact fun _ mem => .inl mem
  · exact fun _ mem => .inl mem
  · exact ⟨h.last.access, h.last.refresh⟩

/-- A call goes on with no claim. -/
theorem goOn_unclaimed (h : Records s) (heeds : c.Heeds s) (unclaimed : c.claims = []) :
  Records (s.goOn i c)
  := by
  apply h.goOn heeds
  rw [unclaimed]
  apply List.forall_mem_nil

/-- A call goes on after a transaction that has read its user. -/
theorem read_goOn (h : Records s) {user : UserId} {row : User} (found : s.users user = some row)
    (heeds : c.Heeds s) (claims : ∀ x ∈ c.claims, x = (user, row.tokenVersion, s.reads + 1)) :
  Records (State.goOn { s with reads := s.reads + 1 } i c)
  := by
  have later : Later s (State.goOn { s with reads := s.reads + 1 } i c) := by
    refine { Later.refl s with reads := Nat.le_succ _, claims := ?_ }
    intro user' version r claimed
    obtain claimed | mem := claimed.of_goOn
    · left
      apply claimed
    · right
      cases claims _ mem
      exact ⟨Nat.lt_succ_self _, Nat.le_refl _, row, found, Nat.le_refl _⟩
  apply h.later later
  · intro j c' hc
    obtain ⟨-, rfl⟩ | ⟨-, hc⟩ := State.calls_goOn hc
    · right
      apply later.heeds heeds
    · left
      apply hc
  · exact fun _ mem => .inl mem
  · exact fun _ mem => .inl mem
  · exact ⟨h.last.access, h.last.refresh⟩

theorem read (h : Records s) :
  Records { s with reads := s.reads + 1 }
  := h.keep
    { Later.refl s with
      reads := Nat.le_succ _
      claims := fun _ _ _ claimed => .inl claimed } rfl rfl rfl rfl

theorem draw (h : Records s) (i : ℕ) :
  Records (s.draw i)
  := h.keep { Later.refl s with } rfl rfl rfl rfl

theorem del (h : Records s) (f : FamilyId) :
  Records { s with families := s.families.del f }
  := by
  refine h.keep { Later.refl s with gone := ?_ } rfl rfl rfl rfl
  intro session closed
  by_cases same : session = f
  · subst same
    apply Expiring.get_eq_none_of_none
    apply Expiring.del_self
  · exact (Expiring.get_congr (Expiring.del_of_ne _ same) _).trans closed.1

/-- A call of `refresh` ends, and no revocation was meant for its token if it succeeds. -/
theorem ended (h : Records s) (i : ℕ) (tab : Option ℕ) {since : Revocations} {token : RefreshToken}
    {result : Except AuthError RefreshToken} (before : Option ℕ)
    (fine : ∀ issued, result = .ok issued →
      ¬since.Covers token.sub token.familyId token.readAt) :
  Records (s.ended i tab since token result before)
  := by
  refine (h.done i).later { Later.refl (s.done i) with } (fun _ _ hc => .inl hc)
    (fun _ mem => .inl mem) (fun _ mem => .inl mem) ⟨h.last.access, ?_⟩
  intro e mem issued ok
  obtain rfl | mem := List.mem_cons.mp mem
  · apply fine issued ok
  · apply h.last.refresh e mem issued ok

theorem failed (h : Records s) (i : ℕ) (tab : Option ℕ) (since : Revocations) (token : RefreshToken)
    (x : AuthError) :
  Records (s.failed i tab since token x)
  := by
  apply h.ended
  nofun

/-- No revocation was meant for the token of a call that finds its family. -/
theorem not_covers (h : Records s) {since : Revocations} {token : RefreshToken} {current : Jti}
    (logouts : since.logouts ⊆ s.revocations.logouts)
    (users : ∀ x ∈ since.users, x.1 = token.sub → x.2 < token.readAt)
    (found : s.families.get s.now token.familyId = some current) :
  ¬since.Covers token.sub token.familyId token.readAt
  := by
  rintro (⟨x, mem, same, -⟩ | ⟨x, mem, same, le⟩)
  · have gone := (h.logouts x (logouts mem)).closed.1
    rw [same] at gone
    cases gone.symm.trans found
  · cases Nat.not_lt.mpr le (users x mem same)

variable {grace : ℕ}

theorem rotate (h : Records s) (rot : Rotations grace s) {tab : Option ℕ} {since : Revocations}
    {token issued : RefreshToken} {access : AccessToken} {ttl : ℕ}
    (hc : s.calls i = some (.refresh tab since token (.rotate access issued ttl))) :
  Records (s.rotate grace i tab since token access issued ttl)
  := by
  obtain ⟨mem, family, -⟩ := (rot.calls i _ hc).proper
  obtain ⟨logouts, -, session, users⟩ := h.calls i _ hc
  have claimed : s.Claimed access.claim := .of_call hc List.mem_cons_self
  have claimed' : s.Claimed issued.claim :=
    .of_call hc (List.mem_cons_of_mem _ (List.mem_singleton_self _))
  unfold State.rotate
  split
  · apply h.failed
  · rename_i current found
    have alive : ¬s.Over access.session := by
      rintro ⟨gone, -⟩
      rw [session] at gone
      cases gone.symm.trans found
    have fresh : ∀ a ∈ access :: s.handedAccess, a ∈ s.handedAccess ∨
        ¬s.Over a.session ∧ ∃ token ∈ s.handed, token.familyId = a.session := by
      intro a mem'
      obtain rfl | mem' := List.mem_cons.mp mem'
      · right
        exact ⟨alive, token, mem, session.symm⟩
      · left
        apply mem'
    split
    · apply ended
      · refine h.keep
          { Later.refl s with
            access := ?_
            handed := List.subset_cons_self ..
            handedAccess := List.subset_cons_self ..
            claims := ?_
            gone := ?_ } rfl rfl rfl rfl
        · intro a mem'
          apply (fresh a mem').imp_right
          rintro ⟨alive, token', mem', same⟩
          exact ⟨alive, token', List.mem_cons_of_mem _ mem', same⟩
        · intro user version r claim
          left
          refine claim.of_handOut (s := s) rfl rfl claimed ?_
          intro token' mem'
          obtain rfl | mem' := List.mem_cons.mp mem'
          · apply claimed'
          · apply State.Claimed.of_handed mem'
        · rintro f ⟨gone, -⟩
          refine (Expiring.get_congr (Expiring.set_of_ne _ ?_ _ _) _).trans gone
          rintro rfl
          cases gone.symm.trans found
      · intro _ _
        apply h.not_covers logouts users found
    · split
      · apply ended
        · refine h.keep
            { Later.refl s with
              access := fresh
              handedAccess := List.subset_cons_self ..
              claims := ?_ } rfl rfl rfl rfl
          intro user version r claim
          left
          exact claim.of_handOut (s := s) rfl rfl claimed fun _ mem => .of_handed mem
        · intro _ _
          apply h.not_covers logouts users found
      · apply (h.del token.familyId).failed

/-- A call whose token is of the version of its user is not meant by a revocation of the user. -/
theorem lt_of_version (h : Records s) {token : RefreshToken} (mem : token ∈ s.handed) {row : User}
    (found : s.users token.sub = some row) (version : row.tokenVersion = token.tokenVersion)
    {readAt : ℕ} (revoked : (token.sub, readAt) ∈ s.revocations.users) :
  readAt < token.readAt
  := by
  apply Nat.lt_of_not_le
  intro le
  obtain ⟨minimum, below, -⟩ := h.users _ revoked
  have lt := below.claims token.tokenVersion token.readAt (.of_handed mem) le
  have top := below.user
  unfold State.version at top
  rw [found, Option.map_some, Option.getD_some, version] at top
  exact Nat.not_lt.mpr top lt

theorem refreshStep (h : Records s) (rot : Rotations grace s) {tab : Option ℕ} {since : Revocations}
    {token : RefreshToken} {phase : RefreshPhase}
    (hc : s.calls i = some (.refresh tab since token phase)) :
  Records (s.refreshStep grace i tab since token phase)
  := by
  have mem := (rot.calls i _ hc).proper.1
  obtain ⟨logouts, users, known⟩ := h.calls i _ hc
  cases phase with
  | decode =>
    rw [State.refreshStep]
    split
    · apply h.failed
    · exact h.goOn_unclaimed ⟨logouts, users, trivial⟩ rfl
  | family =>
    rw [State.refreshStep]
    split
    · apply h.failed
    · exact h.goOn_unclaimed ⟨logouts, users, trivial⟩ rfl
  | account =>
    rw [State.refreshStep]
    split
    · apply h.read.failed
    · rename_i row found
      split
      · apply h.read.failed
      · split
        · exact h.read.goOn_unclaimed ⟨logouts, users, trivial⟩ rfl
        · rename_i version
          refine h.read_goOn found ⟨logouts, users, ?_⟩ fun x mem => List.mem_singleton.mp mem
          rintro ⟨user, readAt⟩ revoked rfl
          apply h.lt_of_version mem found (not_not.mp version) (users revoked)
  | stale => apply (h.del token.familyId).failed
  | access version readAt =>
    refine (h.draw i).goOn ⟨logouts, users, rfl, known⟩ ?_
    intro x mem
    obtain rfl | mem := List.mem_cons.mp mem
    · exact .of_call (s := s.draw i) hc List.mem_cons_self
    · rw [List.mem_singleton.mp mem]
      exact .of_call (s := s.draw i) hc List.mem_cons_self
  | mint version readAt access =>
    refine (h.draw i).goOn ⟨logouts, users, known⟩ ?_
    intro x mem
    obtain rfl | mem := List.mem_cons.mp mem
    · exact .of_call (s := s.draw i) hc (List.mem_cons_of_mem _ (List.mem_singleton_self _))
    · rw [List.mem_singleton.mp mem]
      exact .of_call (s := s.draw i) hc List.mem_cons_self
  | time access issued expiresAt =>
    refine h.goOn ⟨logouts, users, known⟩ ?_
    exact fun x mem => .of_call hc mem
  | rotate access issued ttl => apply h.rotate rot hc

theorem store (h : Records s) (rot : Rotations grace s) {tab : ℕ} {user : UserId}
    {access : AccessToken} {issued : RefreshToken} {ttl : ℕ}
    (hc : s.calls i = some (.login tab user (.store access issued ttl))) :
  Records (s.loginStep i tab user (.store access issued ttl))
  := by
  have session : access.session = issued.familyId := h.calls i _ hc
  have fresh : ∀ token ∈ s.handed, token.familyId ≠ issued.familyId := by
    intro token mem
    apply ((rot.calls i _ hc).unused _ List.mem_cons_self token mem).2
  apply done
  refine h.keep
    { Later.refl s with
      access := ?_
      handed := List.subset_cons_self ..
      handedAccess := List.subset_cons_self ..
      claims := ?_
      gone := ?_ } rfl rfl rfl rfl
  · intro a mem
    obtain rfl | mem := List.mem_cons.mp mem
    · right
      refine ⟨?_, issued, List.mem_cons_self, session.symm⟩
      rintro ⟨-, token, mem, same⟩
      cases fresh token mem (same.trans session)
    · left
      apply mem
  · intro user version r claim
    left
    refine claim.of_handOut (s := s) rfl rfl (.of_call hc List.mem_cons_self) ?_
    intro token mem
    obtain rfl | mem := List.mem_cons.mp mem
    · exact .of_call hc (List.mem_cons_of_mem _ (List.mem_singleton_self _))
    · apply State.Claimed.of_handed mem
  · rintro f ⟨gone, token, mem, rfl⟩
    exact (Expiring.get_congr (Expiring.set_of_ne _ (fresh token mem) _ _) _).trans gone

theorem loginStep (h : Records s) (rot : Rotations grace s) {tab : ℕ} {user : UserId}
    {phase : LoginPhase} (hc : s.calls i = some (.login tab user phase)) :
  Records (s.loginStep i tab user phase)
  := by
  cases phase with
  | account =>
    rw [State.loginStep]
    split
    · apply h.read.done
    · rename_i row found
      split
      · apply h.read.done
      · exact (h.draw i).read_goOn found trivial fun x mem => List.mem_singleton.mp mem
  | access version readAt family =>
    refine (h.draw i).goOn trivial ?_
    intro x mem
    obtain rfl | mem := List.mem_cons.mp mem
    · exact .of_call (s := s.draw i) hc List.mem_cons_self
    · rw [List.mem_singleton.mp mem]
      exact .of_call (s := s.draw i) hc List.mem_cons_self
  | mint version readAt access =>
    refine (h.draw i).goOn rfl ?_
    intro x mem
    obtain rfl | mem := List.mem_cons.mp mem
    · exact .of_call (s := s.draw i) hc (List.mem_cons_of_mem _ (List.mem_singleton_self _))
    · rw [List.mem_singleton.mp mem]
      exact .of_call (s := s.draw i) hc List.mem_cons_self
  | time access issued expiresAt =>
    have session : access.session = issued.familyId := h.calls i _ hc
    exact h.goOn session fun x mem => .of_call hc mem
  | store access issued ttl => apply h.store rot hc

theorem deny (h : Records s) (j : Jti) (expiresAt : ℕ) :
  Records { s with denied := s.denied.set j () expiresAt }
  := by
  refine h.keep { Later.refl s with denied := ?_ } rfl rfl rfl rfl
  intro j' denied
  have key : s.denied.set j () expiresAt j' ≠ none := by
    by_cases same : j' = j
    · rw [same, Expiring.set_self]
      apply Option.some_ne_none
    · rw [Expiring.set_of_ne _ same]
      apply denied
  apply key

/-- A logout is over, when its session is. -/
theorem loggedOut (h : Records s) {access : AccessToken} (mem : access ∈ s.handedAccess)
    (gone : s.Gone access.session) (only : s.Only access)
    (shut : s.denied access.jti ≠ none ∨ expired s.now access.exp = true) :
  Records (s.loggedOut i access)
  := by
  have loggedOut : s.LoggedOut access.session := by
    refine ⟨⟨gone, h.sessions access mem⟩, ?_⟩
    intro a mem same
    obtain rfl | late := only a mem same
    · apply shut
    · right
      apply late
  have later : Later (s.done i) (s.loggedOut i access) :=
    { Later.refl (s.done i) with logouts := List.subset_cons_self .. }
  apply (h.done i).later later
  · exact fun _ _ hc => .inl hc
  · intro x mem
    obtain rfl | mem := List.mem_cons.mp mem
    · right
      exact ⟨⟨loggedOut.closed.1, loggedOut.closed.2⟩, loggedOut.access⟩
    · left
      apply mem
  · exact fun _ mem => .inl mem
  · exact ⟨h.last.access, h.last.refresh⟩

theorem logoutStep (h : Records s) {access : AccessToken} {refresh : Option RefreshToken}
    {phase : LogoutPhase} (hc : s.calls i = some (.logout access refresh phase))
    (complete : s.Complete access refresh phase) :
  Records (s.logoutStep i access refresh phase)
  := by
  obtain ⟨mem, known⟩ := h.calls i _ hc
  cases phase with
  | time =>
    refine h.goOn_unclaimed ⟨mem, complete.imp_right ?_⟩ rfl
    intro le
    apply Nat.div_pos (Nat.le_sub_of_add_le' le) (by decide)
  | deny remaining =>
    have shut : ∃ t : State, t = (if 0 < remaining then
          { s with denied := s.denied.set access.jti () (s.now + remaining * second) }
        else s) ∧ Records t ∧ t.Complete access refresh (.deny remaining) ∧
        access ∈ t.handedAccess ∧
        (t.denied access.jti ≠ none ∨ expired t.now access.exp = true) := by
      refine ⟨_, rfl, ?_⟩
      split
      · refine ⟨h.deny _ _, complete, mem, ?_⟩
        left
        have key : s.denied.set access.jti () (s.now + remaining * second) access.jti ≠ none := by
          rw [Expiring.set_self]
          apply Option.some_ne_none
        apply key
      · rename_i none
        refine ⟨h, complete, mem, ?_⟩
        right
        apply known.resolve_right none
    obtain ⟨t, ht, records, complete, mem, shut⟩ := shut
    cases refresh with
    | none =>
      obtain ⟨gone, only⟩ := complete rfl
      rw [State.logoutStep, ← ht]
      apply records.loggedOut mem gone only shut
    | some token =>
      rw [State.logoutStep, ← ht]
      exact records.goOn_unclaimed ⟨mem, shut⟩ rfl
  | decode token =>
    rw [State.logoutStep]
    split
    · rename_i late
      obtain ⟨gone, only⟩ := complete late
      apply h.loggedOut mem gone only known
    · exact h.goOn_unclaimed ⟨mem, known⟩ rfl
  | delete token =>
    obtain ⟨gone, only⟩ := complete
    rw [State.logoutStep]
    apply (h.del token.familyId).loggedOut mem _ only known
    by_cases same : access.session = token.familyId
    · rw [same]
      apply Expiring.get_eq_none_of_none
      apply Expiring.del_self
    · have gone := gone.resolve_left (Ne.symm same)
      exact (Expiring.get_congr (Expiring.del_of_ne _ same) _).trans gone

/-- The version of one user has changed, and has not become less. -/
theorem update_user (h : Records s) {user : UserId} {f : User → User}
    (le : ∀ row, row.tokenVersion ≤ (f row).tokenVersion) {reads : ℕ} (later : s.reads ≤ reads) :
  Records
    { s with
      users := Function.update s.users user ((s.users user).map f)
      reads := reads }
  := by
  have other : ∀ {u}, u ≠ user →
      Function.update s.users user ((s.users user).map f) u = s.users u :=
    fun ne => Function.update_of_ne ne ..
  have self : Function.update s.users user ((s.users user).map f) user = (s.users user).map f :=
    Function.update_self ..
  refine h.keep
    { Later.refl s with
      reads := later
      users := ?_
      version := ?_
      claims := fun _ _ _ claimed => .inl claimed } rfl rfl rfl rfl
  · intro u row found
    by_cases same : u = user
    · subst same
      refine ⟨f row, ?_, le row⟩
      apply self.trans
      rw [found, Option.map_some]
    · exact ⟨row, (other same).trans found, Nat.le_refl _⟩
  · intro u
    unfold State.version
    by_cases same : u = user
    · subst same
      dsimp only
      rw [self]
      cases s.users u with
      | none => apply Nat.le_refl
      | some row => apply le row
    · dsimp only
      apply Nat.le_of_eq
      rw [other same]

theorem bump (h : Records s) (user : UserId) :
  Records (s.bump user)
  := h.update_user (fun _ => Nat.le_succ _) (Nat.le_succ _)

/-- A revocation is over, when it has left a minimum. -/
theorem revoked (h : Records s) {user : UserId} {readAt : ℕ} (revoked : s.Revoked user readAt) :
  Records
    { s with
      revocations := { s.revocations with users := (user, readAt) :: s.revocations.users } }
  := by
  refine h.later { Later.refl s with revoked := List.subset_cons_self .. } (fun _ _ hc => .inl hc)
    (fun _ mem => .inl mem) ?_ ⟨h.last.access, h.last.refresh⟩
  intro x mem
  obtain rfl | mem := List.mem_cons.mp mem
  · right
    obtain ⟨minimum, below, marked⟩ := revoked
    exact ⟨minimum, ⟨below.old, below.claims, below.user⟩, marked⟩
  · left
    apply mem

theorem revokeStep (h : Records s) {user : UserId} {phase : RevokePhase}
    (hc : s.calls i = some (.revoke user phase))
    (most : ∀ minimum readAt, phase = .mark minimum readAt →
      ∀ e ∈ s.minimum user, e.value ≤ minimum) :
  Records (s.revokeStep i user phase)
  := by
  cases phase with
  | bump =>
    refine (h.bump user).goOn_unclaimed ⟨Nat.le_succ _, ?_, Nat.le_refl _⟩ rfl
    intro version r claimed _
    have claimed : s.Claimed (user, version, r) := claimed
    obtain ⟨-, row, found, le⟩ := h.claimed user version r claimed
    have bumped : (s.bump user).users user =
        some { row with tokenVersion := row.tokenVersion + 1 } := by
      apply (Function.update_self ..).trans
      rw [found, Option.map_some]
    rw [bumped]
    apply Nat.lt_succ_of_le le
  | mark minimum readAt =>
    have below : s.Below user readAt minimum := h.calls i _ hc
    have marked : Later s
        { s with minimum := s.minimum.set user minimum (s.now + accessTtl * second) } := by
      refine { Later.refl s with minimum := ?_ }
      intro user' e found
      by_cases same : user' = user
      · subst same
        exact ⟨⟨minimum, s.now + accessTtl * second⟩, Expiring.set_self ..,
          most minimum readAt rfl e found⟩
      · exact ⟨e, (Expiring.set_of_ne _ same _ _).trans found, Nat.le_refl _⟩
    have records := (h.keep marked rfl rfl rfl rfl).done i
    apply records.revoked
    refine ⟨minimum, ⟨below.old, ?_, below.user⟩, ⟨minimum, s.now + accessTtl * second⟩,
      Expiring.set_self .., Nat.le_refl _⟩
    intro version r claimed
    have claimed : (s.done i).Claimed (user, version, r) := claimed
    apply below.claims version r claimed.of_done

theorem verifyStep (h : Records s) {since : Revocations} {token : AccessToken} {phase : VerifyPhase}
    (hc : s.calls i = some (.verify since token phase))
    (denied : phase = .denied → ∀ e ∈ s.denied token.jti, s.now < e.expiresAt)
    (least : phase = .minimum →
      ∀ e ∈ s.minimum token.sub, token.tokenVersion < e.value → s.now < e.expiresAt) :
  Records (s.verifyStep i since token phase)
  := by
  obtain ⟨logouts, users, mem, known⟩ := h.calls i _ hc
  cases phase with
  | decode =>
    rw [State.verifyStep]
    split
    · apply h.done
    · rename_i early
      refine h.goOn_unclaimed ⟨logouts, users, mem, ?_⟩ rfl
      intro x revoked same
      apply ((h.logouts x (logouts revoked)).access token mem same.symm).resolve_right early
  | denied =>
    rw [State.verifyStep]
    split
    · apply h.done
    · rename_i unread
      refine h.goOn_unclaimed ⟨logouts, users, mem, ?_⟩ rfl
      intro x revoked same
      obtain ⟨e, found⟩ := Option.ne_none_iff_exists'.mp (known x revoked same)
      have read : s.denied.get s.now token.jti = some e.value :=
        Expiring.get_eq_some_iff.mpr ⟨e.expiresAt, found, denied rfl e found⟩
      rw [read] at unread
      cases unread rfl
  | minimum =>
    rw [State.verifyStep]
    split
    · apply h.done
    · rename_i passed
      refine (h.done i).later { Later.refl (s.done i) with } (fun _ _ hc => .inl hc)
        (fun _ mem => .inl mem) (fun _ mem => .inl mem) ⟨?_, h.last.refresh⟩
      intro e accepted
      obtain rfl | accepted := List.mem_cons.mp accepted
      · rintro (⟨x, revoked, same, -⟩ | ⟨x, revoked, same, le⟩)
        · apply known x revoked same
        · obtain ⟨minimum, below, e, found, top⟩ := h.users x (users revoked)
          rw [same] at below found
          have lt : token.tokenVersion < e.value :=
            Nat.lt_of_lt_of_le (below.claims _ _ (.inr (.inl ⟨token, mem, rfl⟩)) le) top
          have read : s.minimum.get s.now token.sub = some e.value :=
            Expiring.get_eq_some_iff.mpr ⟨e.expiresAt, found, least rfl e found lt⟩
          apply passed
          rw [read, Option.any_some]
          apply decide_eq_true lt
      · apply h.last.access e accepted

theorem tick (h : Records s) (microseconds : ℕ) :
  Records { s with now := s.now + microseconds }
  := by
  refine h.keep { Later.refl s with now := Nat.le_add_right .., gone := ?_ } rfl rfl rfl rfl
  rintro session ⟨gone, -⟩
  apply Expiring.get_eq_none_mono (Nat.le_add_right ..) gone

theorem createUser (h : Records s) {user : UserId} (missing : s.users user = none) :
  Records { s with users := Function.update s.users user (some {}) }
  := by
  refine h.keep
    { Later.refl s with
      users := ?_
      version := ?_
      claims := fun _ _ _ claimed => .inl claimed } rfl rfl rfl rfl
  · intro u row found
    refine ⟨row, ?_, Nat.le_refl _⟩
    refine (Function.update_of_ne ?_ ..).trans found
    rintro rfl
    cases missing.symm.trans found
  · intro u
    unfold State.version
    by_cases same : u = user
    · subst same
      dsimp only
      rw [missing, Function.update_self]
      apply Nat.le_refl
    · dsimp only
      apply Nat.le_of_eq
      rw [Function.update_of_ne same]

theorem start (h : Records s) (hstart : s.start i c = some t) (claims : c.claims = [])
    (heeds : c.Heeds s) :
  Records t
  := by
  unfold State.start at hstart
  split at hstart
  · cases hstart
    apply h.goOn heeds
    rw [claims]
    nofun
  · cases hstart

theorem step (h : Records s) (rot : Rotations grace s) {a : Action} (lasting : Lasting s a)
    (hstep : s.step grace a = some t) :
  Records t
  := by
  cases a with
  | tick microseconds =>
    cases hstep
    apply h.tick
  | step i =>
    obtain ⟨c, hc, rfl⟩ := Option.map_eq_some_iff.mp hstep
    have lasting : c.Lasts s := lasting c hc
    cases c with
    | refresh tab since token phase => apply h.refreshStep rot hc
    | login tab user phase => apply h.loginStep rot hc
    | logout access refresh phase => apply h.logoutStep hc lasting
    | revoke user phase =>
      apply h.revokeStep hc
      rintro minimum readAt rfl
      apply lasting
    | verify since token phase =>
      apply h.verifyStep hc
      · rintro rfl
        apply lasting
      · rintro rfl
        apply lasting
  | abandon i =>
    cases hstep
    apply h.done
  | createUser user =>
    rw [State.step] at hstep
    split at hstep
    · rename_i missing
      cases hstep
      apply h.createUser missing
    · cases hstep
  | setActive user active =>
    cases hstep
    exact h.update_user (f := fun row => { row with active := active }) (fun _ => Nat.le_refl _)
      (Nat.le_refl _)
  | bumpTokenVersion user =>
    cases hstep
    apply h.bump
  | login i tab user =>
    rw [State.step] at hstep
    exact h.start hstep rfl trivial
  | openTab tab beside =>
    cases hstep
    exact h.keep { Later.refl s with } rfl rfl rfl rfl
  | refresh i tab =>
    obtain ⟨token, -, hstart⟩ := Option.bind_eq_some_iff.mp hstep
    exact h.start hstart rfl ⟨List.Subset.refl _, List.Subset.refl _, trivial⟩
  | present i token =>
    rw [State.step] at hstep
    split at hstep
    · exact h.start hstep rfl ⟨List.Subset.refl _, List.Subset.refl _, trivial⟩
    · cases hstep
  | logout i access refresh =>
    rw [State.step] at hstep
    split at hstep
    · rename_i known
      exact h.start hstep rfl ⟨known.1, trivial⟩
    · cases hstep
  | revokeAll i user =>
    rw [State.step] at hstep
    exact h.start hstep rfl trivial
  | verify i token =>
    rw [State.step] at hstep
    split at hstep
    · rename_i mem
      exact h.start hstep rfl ⟨List.Subset.refl _, List.Subset.refl _, mem, trivial⟩
    · cases hstep

theorem initial :
  Records {}
  := by
  constructor
  · rintro user version r (⟨token, mem, -⟩ | ⟨token, mem, -⟩ | ⟨j, c, hc, -⟩)
    · cases mem
    · cases mem
    · cases hc
  · nofun
  · nofun
  · nofun
  · nofun
  · constructor
    · nofun
    · nofun

end Records

/-- The access token of a first login, and its refresh token. -/
def firstAccess : AccessToken := ⟨0, 1, 1, 900, 0, 1⟩

def firstRefresh : RefreshToken := ⟨0, 0, 2, 1, 1209600, 1⟩

/-- A login, a logout after some seconds, and a verification after some more, with its steps. -/
def loginLogout (before after steps : ℕ) : List Action :=
  [.createUser 0, .login 0 0 0] ++ .replicate 5 (.step 0) ++
    [.tick (before * second), .logout 1 firstAccess (some firstRefresh)] ++
    .replicate 4 (.step 1) ++ [.tick (after * second), .verify 2 firstAccess] ++
    .replicate steps (.step 2)

end Lumina.Identity
