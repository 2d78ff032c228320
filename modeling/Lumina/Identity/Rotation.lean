import Lumina.Identity.Sessions
import Mathlib.Tactic.Use

/-!
# The rotation of refresh tokens

A refresh within the grace of its token should be given the token that is the current one of the
family, so that the tabs of a browser all come to hold the same token; and a token that turns up
when its grace is over is a replay, which ends the session.

The first is not so if the token has been rotated twice in its grace: the record of the first
rotation hands out a token that is not the current one any more.  `rotation_sound_iff` says that
this, and a session that has ended for another reason, is all there is to go wrong.
-/

namespace Lumina.Identity

open Transition

/-! ### What is expected of a refresh -/

/-- A refresh of a tab within the grace succeeds and returns the current token; one of a token whose
grace is over fails, and the family is gone. -/
structure Refreshed.Sound (grace : ℕ) (e : Refreshed) : Prop where
  current : e.tab ≠ none → (∀ r, e.rotatedAt = some r → e.time < r + grace * second) →
    ∃ token, e.result = .ok token ∧ e.current = some token.jti
  replay : ∀ r, e.rotatedAt = some r → r + grace * second ≤ e.time →
    (∃ x, e.result = .error x) ∧ e.current = none

namespace State

/-- All refreshes so far were as expected. -/
def RotationSound (grace : ℕ) (s : State) : Prop :=
  ∀ e ∈ s.refreshes, e.Sound grace

/-- A tab presents the token, and it has not been rotated, or is still in its grace. -/
def Honest (s : State) (grace : ℕ) (tab : Option ℕ) (token : RefreshToken) : Prop :=
  tab ≠ none ∧ ∀ r, s.rotatedAt token.jti = some r → s.now < r + grace * second

/-- The grace of the token is over. -/
def Late (s : State) (grace : ℕ) (token : RefreshToken) : Prop :=
  ∃ r, s.rotatedAt token.jti = some r ∧ r + grace * second ≤ s.now

/-- The family of the token is there. -/
def Alive (s : State) (token : RefreshToken) : Prop :=
  s.families.get s.now token.familyId ≠ none

/-- The token that this one has been rotated to, if any, has not been rotated itself. -/
def SuccessorNewest (s : State) (token : RefreshToken) : Prop :=
  ∀ e, s.rotated token.jti = some e → s.rotatedAt e.value.jti = none

/-- The account is not there, or has been disabled. -/
def Disabled (s : State) (token : RefreshToken) : Prop :=
  ∀ user, s.users token.sub = some user → user.active = false

/-- What is assumed of the state in which a refresh takes a step: a tab that is in time finds its
session alive, and the successor of its token has not been rotated; and a token that is late has
not expired, nor has its account been disabled, unless the family is gone anyway. -/
def Undisturbed (s : State) (grace : ℕ) (tab : Option ℕ) (token : RefreshToken) :
    RefreshPhase → Prop
  | .decode =>
      expired s.now token.exp = true →
        ¬s.Honest grace tab token ∧ (s.Late grace token → ¬s.Alive token)
  | .family => ¬s.Alive token → ¬s.Honest grace tab token
  | .account =>
      s.Disabled token → ¬s.Honest grace tab token ∧ (s.Late grace token → ¬s.Alive token)
  | .stale => ¬s.Honest grace tab token
  | .rotate _ _ _ => s.Honest grace tab token → s.Alive token ∧ s.SuccessorNewest token
  | _ => True

end State

/-- The assumption about a step of a run. -/
def Undisturbed (grace : ℕ) (s : State) : Action → Prop
  | .step i =>
      match s.calls i with
      | some (.refresh tab _ token phase) => s.Undisturbed grace tab token phase
      | _ => True
  | _ => True

/-! ### Tokens and families -/

/-- The fresh identifiers that a call has drawn for a family and for a refresh token. -/
def Call.drawn : Call → List ℕ
  | .refresh _ _ _ (.time _ issued _) | .refresh _ _ _ (.rotate _ issued _) => [issued.jti]
  | .login _ _ (.access _ _ family) => [family]
  | .login _ _ (.mint _ _ access) => [access.session]
  | .login _ _ (.time _ issued _) | .login _ _ (.store _ issued _) =>
      [issued.familyId, issued.jti]
  | _ => []

/-- A refresh presents a token that has been handed out, and issues one of the same family.  The
family is kept for some time. -/
def Call.Proper (handed : List RefreshToken) : Call → Prop
  | .refresh _ _ token phase =>
      token ∈ handed ∧
        match phase with
        | .time _ issued _ => issued.familyId = token.familyId
        | .rotate _ issued ttl => issued.familyId = token.familyId ∧ 0 < ttl
        | _ => True
  | .login _ _ (.store _ _ ttl) => 0 < ttl
  | _ => True

theorem Call.Proper.mono {handed : List RefreshToken} {c : Call} (h : c.Proper handed)
    (token : RefreshToken) :
  c.Proper (token :: handed)
  := by
  unfold Call.Proper at h ⊢
  split at h
  · exact ⟨List.mem_cons_of_mem _ h.1, h.2⟩
  · apply h
  · trivial

/-- A call is proper, and the identifiers that it has drawn are its own and on no token that has
been handed out. -/
structure Fits (s : State) (i : ℕ) (c : Call) : Prop where
  old : ∀ u ∈ c.drawn, u < s.fresh
  owner : ∀ u ∈ c.drawn, s.owner u = i
  unused : ∀ u ∈ c.drawn, ∀ token ∈ s.handed, token.jti ≠ u ∧ token.familyId ≠ u
  proper : c.Proper s.handed

/-- How the tokens and the keys hang together. -/
structure Hold (grace : ℕ) (s : State) : Prop where
  old : ∀ token ∈ s.handed, token.jti < s.fresh ∧ token.familyId < s.fresh
  unique : ∀ token ∈ s.handed, ∀ token' ∈ s.handed, token.jti = token'.jti → token = token'
  held : ∀ tab token, s.held tab = some token → token ∈ s.handed
  rotatedAt : ∀ j r, s.rotatedAt j = some r → r ≤ s.now ∧ ∃ token ∈ s.handed, token.jti = j
  records : ∀ j e, s.rotated j = some e → e.value ∈ s.handed ∧
    (∀ token ∈ s.handed, token.jti = j → e.value.familyId = token.familyId) ∧
    ∃ r, s.rotatedAt j = some r ∧ e.expiresAt = r + grace * second
  recorded : 0 < grace → ∀ j r, s.rotatedAt j = some r → s.rotated j ≠ none
  noRecord : grace = 0 → ∀ j, s.rotated j = none
  current : ∀ f e, s.families f = some e → s.rotatedAt e.value = none ∧
    ∃ token ∈ s.handed, token.jti = e.value ∧ token.familyId = f
  newest : ∀ token ∈ s.handed, s.rotatedAt token.jti = none →
    ∀ e, s.families token.familyId = some e → e.value = token.jti

structure Rotations (grace : ℕ) (s : State) : Prop where
  hold : Hold grace s
  calls : ∀ i c, s.calls i = some c → Fits s i c

variable {grace : ℕ} {s t : State} {i j : ℕ} {c : Call}

/-- No token has been handed out meanwhile. -/
theorem Fits.keep (h : Fits s i c) (fresh : s.fresh ≤ t.fresh)
    (owner : ∀ u < s.fresh, t.owner u = s.owner u) (handed : t.handed = s.handed) :
  Fits t i c
  where
  old u mem := Nat.lt_of_lt_of_le (h.old u mem) fresh
  owner u mem := (owner u (h.old u mem)).trans (h.owner u mem)
  unused := by
    rw [handed]
    apply h.unused
  proper := by
    rw [handed]
    apply h.proper

/-- A token has been handed out that has none of the identifiers of the call. -/
theorem Fits.handOut (h : Fits s i c) {token : RefreshToken}
    (other : ∀ u ∈ c.drawn, token.jti ≠ u ∧ token.familyId ≠ u) (fresh : t.fresh = s.fresh)
    (owner : t.owner = s.owner) (handed : t.handed = token :: s.handed) :
  Fits t i c
  where
  old := by
    rw [fresh]
    apply h.old
  owner := by
    rw [owner]
    apply h.owner
  unused := by
    rw [handed]
    intro u mem token' mem'
    obtain rfl | mem' := List.mem_cons.mp mem'
    · apply other u mem
    · apply h.unused u mem token' mem'
  proper := by
    rw [handed]
    apply h.proper.mono

/-- The tables of the tokens are as they were, and it is later. -/
theorem Hold.keep (h : Hold grace s) (now : s.now ≤ t.now) (fresh : s.fresh ≤ t.fresh)
    (handed : t.handed = s.handed) (held : ∀ tab token, t.held tab = some token → token ∈ s.handed)
    (rotatedAt : t.rotatedAt = s.rotatedAt) (rotated : t.rotated = s.rotated)
    (families : ∀ f e, t.families f = some e → s.families f = some e) :
  Hold grace t
  := by
  constructor
  · rw [handed]
    intro token mem
    have old := h.old token mem
    exact ⟨Nat.lt_of_lt_of_le old.1 fresh, Nat.lt_of_lt_of_le old.2 fresh⟩
  · rw [handed]
    apply h.unique
  · rw [handed]
    apply held
  · rw [handed, rotatedAt]
    intro j r hr
    have before := h.rotatedAt j r hr
    exact ⟨Nat.le_trans before.1 now, before.2⟩
  · rw [handed, rotatedAt, rotated]
    apply h.records
  · rw [rotatedAt, rotated]
    apply h.recorded
  · rw [rotated]
    apply h.noRecord
  · rw [handed, rotatedAt]
    intro f e he
    apply h.current f e (families f e he)
  · rw [handed, rotatedAt]
    intro token mem unrotated e he
    apply h.newest token mem unrotated e (families _ e he)

namespace Rotations

theorem initial :
  Rotations grace {}
  := by
  constructor
  · constructor
    all_goals simp
  · simp

/-- A call has gone on, to something that fits. -/
theorem goOn (h : Rotations grace s) (fits : Fits s i c) :
  Rotations grace (s.goOn i c)
  := by
  constructor
  · apply h.hold.keep (t := s.goOn i c) (Nat.le_refl _) (Nat.le_refl _) rfl h.hold.held rfl rfl
    intro f e he
    apply he
  · intro j c' hc
    obtain ⟨rfl, rfl⟩ | ⟨-, hc⟩ := State.calls_goOn hc
    · apply fits.keep (t := s.goOn j c') (Nat.le_refl _) (fun _ _ => rfl) rfl
    · apply (h.calls j c' hc).keep (t := s.goOn i c) (Nat.le_refl _) (fun _ _ => rfl) rfl

theorem done (h : Rotations grace s) (i : ℕ) :
  Rotations grace (s.done i)
  := by
  constructor
  · apply h.hold.keep (t := s.done i) (Nat.le_refl _) (Nat.le_refl _) rfl h.hold.held rfl rfl
    intro f e he
    apply he
  · intro j c' hc
    obtain ⟨-, hc⟩ := State.calls_done hc
    apply (h.calls j c' hc).keep (t := s.done i) (Nat.le_refl _) (fun _ _ => rfl) rfl

/-- Only other tables have changed, it has become later, or a family has been deleted. -/
theorem keep (h : Rotations grace s) (now : s.now ≤ t.now) (fresh : t.fresh = s.fresh)
    (owner : t.owner = s.owner) (handed : t.handed = s.handed) (held : t.held = s.held)
    (rotatedAt : t.rotatedAt = s.rotatedAt) (rotated : t.rotated = s.rotated)
    (families : ∀ f e, t.families f = some e → s.families f = some e)
    (calls : t.calls = s.calls) :
  Rotations grace t
  := by
  constructor
  · apply h.hold.keep now (Nat.le_of_eq fresh.symm) handed _ rotatedAt rotated families
    rw [held]
    apply h.hold.held
  · intro j c hc
    rw [calls] at hc
    apply (h.calls j c hc).keep (Nat.le_of_eq fresh.symm) _ handed
    intro u _
    rw [owner]

/-- A call has drawn a fresh identifier. -/
theorem draw (h : Rotations grace s) (i : ℕ) :
  Rotations grace (s.draw i)
  := by
  have owner : ∀ u < s.fresh, (s.draw i).owner u = s.owner u := by
    intro u lt
    apply Function.update_of_ne (Nat.ne_of_lt lt)
  constructor
  · apply h.hold.keep (t := s.draw i) (Nat.le_refl _) (Nat.le_succ _) rfl h.hold.held rfl rfl
    intro f e he
    apply he
  · intro j c hc
    apply (h.calls j c hc).keep (t := s.draw i) (Nat.le_succ _) owner rfl

end Rotations

/-- What a tab holds is the token that was handed out, or what it held. -/
theorem State.of_held_handOut (tab : Option ℕ) (access : AccessToken) {token : RefreshToken}
    {tab' : ℕ} {token' : RefreshToken} (h : (s.handOut tab access token).held tab' = some token') :
  token' = token ∨ s.held tab' = some token'
  := by
  cases tab with
  | none =>
    right
    apply h
  | some tab =>
    by_cases same : tab' = tab
    · left
      subst same
      have self : (s.handOut (some tab') access token).held tab' = some token :=
        Function.update_self ..
      exact (Option.some.inj (self.symm.trans h)).symm
    · right
      have other : (s.handOut (some tab) access token).held tab' = s.held tab' :=
        Function.update_of_ne same ..
      exact other.symm.trans h

/-- A call that has drawn no identifiers. -/
theorem Fits.of_nil (drawn : c.drawn = []) (proper : c.Proper s.handed) :
  Fits s i c
  := by
  constructor
  · rw [drawn]
    nofun
  · rw [drawn]
    nofun
  · rw [drawn]
    nofun
  · apply proper

/-- A call that goes on with the same identifiers. -/
theorem Fits.of_subset {c' : Call} (fits : Fits s i c) (drawn : c'.drawn ⊆ c.drawn)
    (proper : c'.Proper s.handed) :
  Fits s i c'
  where
  old u mem := fits.old u (drawn mem)
  owner u mem := fits.owner u (drawn mem)
  unused u mem := fits.unused u (drawn mem)
  proper := proper

/-- A call that draws a fresh identifier fits if it fits but for that. -/
theorem Fits.draw (h : Rotations grace s) {c c' : Call} (fits : Fits s i c)
    (drawn : ∀ u ∈ c'.drawn, u ∈ c.drawn ∨ u = s.fresh) (proper : c'.Proper s.handed) :
  Fits (s.draw i) i c'
  := by
  constructor
  · intro u mem
    obtain mem | rfl := drawn u mem
    · apply Nat.lt_succ_of_lt (fits.old u mem)
    · apply Nat.lt_succ_self
  · intro u mem
    obtain mem | rfl := drawn u mem
    · apply (Function.update_of_ne (Nat.ne_of_lt (fits.old u mem)) ..).trans (fits.owner u mem)
    · apply Function.update_self
  · intro u mem token handed
    obtain mem | rfl := drawn u mem
    · apply fits.unused u mem token handed
    · have old := h.hold.old token handed
      exact ⟨Nat.ne_of_lt old.1, Nat.ne_of_lt old.2⟩
  · apply proper

/-- No token with a fresh identifier has been rotated. -/
theorem Fits.rotatedAt (fits : Fits s i c) (h : Rotations grace s) {u : ℕ} (mem : u ∈ c.drawn) :
  s.rotatedAt u = none
  := by
  cases rotated : s.rotatedAt u with
  | none => rfl
  | some r =>
    obtain ⟨-, token, handed, same⟩ := h.hold.rotatedAt u r rotated
    cases (fits.unused u mem token handed).1 same

/-- A token with a fresh identifier is not one of those that have been handed out. -/
theorem Fits.unique (fits : Fits s i c) (h : Rotations grace s) {issued : RefreshToken}
    (mem : issued.jti ∈ c.drawn) :
  ∀ token ∈ issued :: s.handed, ∀ token' ∈ issued :: s.handed, token.jti = token'.jti →
    token = token'
  := by
  intro token new token' new' same
  obtain rfl | old := List.mem_cons.mp new
  · obtain rfl | old' := List.mem_cons.mp new'
    · rfl
    · cases (fits.unused _ mem token' old').1 same.symm
  · obtain rfl | old' := List.mem_cons.mp new'
    · cases (fits.unused _ mem token old).1 same
    · apply h.hold.unique token old token' old' same

/-- The identifiers of two calls are different. -/
theorem Fits.ne (fits : Fits s i c) {c' : Call} (fits' : Fits s j c') (other : j ≠ i) {u v : ℕ}
    (mem : u ∈ c.drawn) (mem' : v ∈ c'.drawn) :
  u ≠ v
  := by
  rintro rfl
  apply other
  rw [← fits.owner u mem, fits'.owner u mem']

namespace Rotations

theorem ended (h : Rotations grace s) (i : ℕ) (tab : Option ℕ) (since : Revocations)
    (token : RefreshToken) (result : Except AuthError RefreshToken) (before : Option ℕ) :
  Rotations grace (s.ended i tab since token result before)
  := by
  apply (h.done i).keep (t := s.ended i tab since token result before) (Nat.le_refl _) rfl rfl rfl
    rfl rfl rfl _ rfl
  intro f e he
  apply he

theorem handOut (h : Rotations grace s) (tab : Option ℕ) (access : AccessToken)
    {token : RefreshToken} (mem : token ∈ s.handed) :
  Rotations grace (s.handOut tab access token)
  := by
  constructor
  · apply h.hold.keep (t := s.handOut tab access token) (Nat.le_refl _) (Nat.le_refl _) rfl _ rfl
      rfl
    · intro f e he
      apply he
    · intro tab' token' held
      obtain rfl | held := State.of_held_handOut tab access held
      · apply mem
      · apply h.hold.held tab' token' held
  · intro j c hc
    apply (h.calls j c hc).keep (t := s.handOut tab access token) (Nat.le_refl _)
      (fun _ _ => rfl) rfl

theorem del (h : Rotations grace s) (f : FamilyId) :
  Rotations grace { s with families := s.families.del f }
  := by
  apply h.keep (t := { s with families := s.families.del f }) (Nat.le_refl _) rfl rfl rfl rfl rfl
    rfl _ rfl
  intro f' e he
  apply (Expiring.of_del he).2

/-- The tables after a login has stored its family. -/
theorem hold_store (h : Rotations grace s) (fits : Fits s i c) {issued : RefreshToken}
    (family : issued.familyId ∈ c.drawn) (jti : issued.jti ∈ c.drawn) {expiresAt : ℕ}
    (now : t.now = s.now) (fresh : t.fresh = s.fresh)
    (held : ∀ tab token, t.held tab = some token → token = issued ∨ s.held tab = some token)
    (families : t.families = s.families.set issued.familyId issued.jti expiresAt)
    (rotated : t.rotated = s.rotated) (handed : t.handed = issued :: s.handed)
    (rotatedAt : t.rotatedAt = s.rotatedAt) :
  Hold grace t
  := by
  have unrotated := fits.rotatedAt h jti
  constructor
  · rw [handed, fresh]
    intro token mem
    obtain rfl | mem := List.mem_cons.mp mem
    · exact ⟨fits.old _ jti, fits.old _ family⟩
    · apply h.hold.old token mem
  · rw [handed]
    apply fits.unique h jti
  · rw [handed]
    intro tab token holds
    obtain rfl | holds := held tab token holds
    · apply List.mem_cons_self
    · apply List.mem_cons_of_mem _ (h.hold.held tab token holds)
  · rw [handed, rotatedAt, now]
    intro j r hr
    obtain ⟨past, token, mem, same⟩ := h.hold.rotatedAt j r hr
    exact ⟨past, token, List.mem_cons_of_mem _ mem, same⟩
  · rw [handed, rotated, rotatedAt]
    intro j e he
    obtain ⟨mem, family', r, hr, expires⟩ := h.hold.records j e he
    refine ⟨List.mem_cons_of_mem _ mem, ?_, r, hr, expires⟩
    intro token mem' same
    obtain rfl | mem' := List.mem_cons.mp mem'
    · subst same
      cases unrotated.symm.trans hr
    · apply family' token mem' same
  · rw [rotated, rotatedAt]
    apply h.hold.recorded
  · rw [rotated]
    apply h.hold.noRecord
  · rw [handed, families, rotatedAt]
    intro f e he
    by_cases same : f = issued.familyId
    · subst same
      rw [Expiring.set_self] at he
      cases he
      exact ⟨unrotated, issued, List.mem_cons_self, rfl, rfl⟩
    · rw [Expiring.set_of_ne _ same] at he
      obtain ⟨unrotated, token, mem, jti', family'⟩ := h.hold.current f e he
      exact ⟨unrotated, token, List.mem_cons_of_mem _ mem, jti', family'⟩
  · rw [handed, families, rotatedAt]
    intro token mem unrotated e he
    obtain rfl | mem := List.mem_cons.mp mem
    · rw [Expiring.set_self] at he
      cases he
      rfl
    · rw [Expiring.set_of_ne _ (fits.unused _ family token mem).2] at he
      apply h.hold.newest token mem unrotated e he

/-- The tables after a refresh has rotated the current token of the family. -/
theorem hold_rotate (h : Rotations grace s) (fits : Fits s i c) {token issued : RefreshToken}
    (mem : token ∈ s.handed) (family : issued.familyId = token.familyId)
    (jti : issued.jti ∈ c.drawn) {e : Entry Jti} (current : s.families token.familyId = some e)
    (same : e.value = token.jti) {expiresAt : ℕ} (now : t.now = s.now) (fresh : t.fresh = s.fresh)
    (held : ∀ tab token, t.held tab = some token → token = issued ∨ s.held tab = some token)
    (families : t.families = s.families.set token.familyId issued.jti expiresAt)
    (rotated : t.rotated = if 0 < grace then s.rotated.set token.jti issued (s.now + grace * second)
      else s.rotated)
    (handed : t.handed = issued :: s.handed)
    (rotatedAt : t.rotatedAt = Function.update s.rotatedAt token.jti (some s.now)) :
  Hold grace t
  := by
  have unrotated := fits.rotatedAt h jti
  have other : issued.jti ≠ token.jti := (fits.unused _ jti token mem).1.symm
  -- when another token was rotated has not changed
  have before : ∀ j, j ≠ token.jti → t.rotatedAt j = s.rotatedAt j := by
    intro j ne
    rw [rotatedAt, Function.update_of_ne ne]
  have now' : t.rotatedAt token.jti = some s.now := by
    rw [rotatedAt, Function.update_self]
  constructor
  · rw [handed, fresh]
    intro token' mem'
    obtain rfl | mem' := List.mem_cons.mp mem'
    · refine ⟨fits.old _ jti, ?_⟩
      rw [family]
      apply (h.hold.old token mem).2
    · apply h.hold.old token' mem'
  · rw [handed]
    apply fits.unique h jti
  · rw [handed]
    intro tab token' holds
    obtain rfl | holds := held tab token' holds
    · apply List.mem_cons_self
    · apply List.mem_cons_of_mem _ (h.hold.held tab token' holds)
  · rw [handed, now]
    intro j r hr
    by_cases same : j = token.jti
    · subst same
      cases now'.symm.trans hr
      exact ⟨Nat.le_refl _, token, List.mem_cons_of_mem _ mem, rfl⟩
    · rw [before j same] at hr
      obtain ⟨past, token', mem', same'⟩ := h.hold.rotatedAt j r hr
      exact ⟨past, token', List.mem_cons_of_mem _ mem', same'⟩
  · rw [handed, rotated]
    intro j e' he'
    by_cases pos : 0 < grace
    · rw [if_pos pos] at he'
      by_cases same : j = token.jti
      · subst same
        rw [Expiring.set_self] at he'
        cases he'
        refine ⟨List.mem_cons_self, ?_, s.now, now', rfl⟩
        intro token' mem' same
        obtain rfl | mem' := List.mem_cons.mp mem'
        · cases other same
        · rw [h.hold.unique token' mem' token mem same, family]
      · rw [Expiring.set_of_ne _ same] at he'
        obtain ⟨old, family', r, hr, expires⟩ := h.hold.records j e' he'
        refine ⟨List.mem_cons_of_mem _ old, ?_, r, (before j same).trans hr, expires⟩
        intro token' mem' same'
        obtain rfl | mem' := List.mem_cons.mp mem'
        · subst same'
          cases unrotated.symm.trans hr
        · apply family' token' mem' same'
    · rw [if_neg pos] at he'
      cases (h.hold.noRecord (Nat.eq_zero_of_not_pos pos) j).symm.trans he'
  · intro pos j r hr
    rw [rotated, if_pos pos]
    by_cases same : j = token.jti
    · rw [same, Expiring.set_self]
      nofun
    · rw [Expiring.set_of_ne _ same]
      rw [before j same] at hr
      apply h.hold.recorded pos j r hr
  · intro zero j
    rw [rotated, if_neg (Nat.not_lt.mpr (Nat.le_of_eq zero))]
    apply h.hold.noRecord zero
  · rw [handed, families]
    intro f e' he'
    by_cases here : f = token.familyId
    · subst here
      rw [Expiring.set_self] at he'
      cases he'
      exact ⟨(before _ other).trans unrotated, issued, List.mem_cons_self, rfl, family⟩
    · rw [Expiring.set_of_ne _ here] at he'
      obtain ⟨newest, token', mem', jti', family'⟩ := h.hold.current f e' he'
      refine ⟨(before _ ?_).trans newest, token', List.mem_cons_of_mem _ mem', jti', family'⟩
      intro same
      apply here
      rw [← family', h.hold.unique token' mem' token mem (jti'.trans same)]
  · rw [handed, families]
    intro token' mem' newest e' he'
    obtain rfl | mem' := List.mem_cons.mp mem'
    · rw [family, Expiring.set_self] at he'
      cases he'
      rfl
    · have ne : token'.jti ≠ token.jti := by
        intro same
        rw [same, now'] at newest
        cases newest
      rw [before _ ne] at newest
      by_cases here : token'.familyId = token.familyId
      · cases ne ((h.hold.newest token' mem' newest e (here ▸ current)).symm.trans same)
      · rw [Expiring.set_of_ne _ here] at he'
        apply h.hold.newest token' mem' newest e' he'

/-- A call hands out the token that it has issued, and ends. -/
theorem issue (h : Rotations grace s) (hc : s.calls i = some c) {issued : RefreshToken}
    (jti : issued.jti ∈ c.drawn)
    (family : issued.familyId ∈ c.drawn ∨ ∃ token ∈ s.handed, token.familyId = issued.familyId)
    (hold : Hold grace t) (fresh : t.fresh = s.fresh) (owner : t.owner = s.owner)
    (handed : t.handed = issued :: s.handed) (calls : t.calls = (s.done i).calls) :
  Rotations grace t
  := by
  constructor
  · apply hold
  · intro j c' hc'
    rw [calls] at hc'
    obtain ⟨other, hc'⟩ := State.calls_done hc'
    have fits := h.calls i c hc
    have fits' := h.calls j c' hc'
    apply fits'.handOut _ fresh owner handed
    intro u mem
    constructor
    · apply fits.ne fits' other jti mem
    · obtain family | ⟨token, old, family⟩ := family
      · apply fits.ne fits' other family mem
      · rw [← family]
        apply (fits'.unused u mem token old).2

/-! ### The steps -/

theorem secondsUntil_pos (now moment : ℕ) :
  0 < secondsUntil now moment
  := by
  apply Nat.le_max_right

theorem rotate (h : Rotations grace s) {tab : Option ℕ} {since : Revocations}
    {token issued : RefreshToken} {access : AccessToken} {ttl : ℕ}
    (hc : s.calls i = some (.refresh tab since token (.rotate access issued ttl))) :
  Rotations grace (s.rotate grace i tab since token access issued ttl)
  := by
  have fits := h.calls i _ hc
  obtain ⟨mem, family, -⟩ := fits.proper
  unfold State.rotate
  split
  · apply h.ended
  · rename_i current found
    obtain ⟨expiresAt, entry, -⟩ := Expiring.get_eq_some_iff.mp found
    split
    · rename_i same
      have jti : issued.jti ∈ [issued.jti] := List.mem_singleton_self _
      refine h.issue hc jti (.inr ⟨token, mem, family.symm⟩) ?_ rfl rfl rfl rfl
      refine h.hold_rotate fits mem family jti entry same rfl rfl ?_ rfl rfl rfl rfl
      intro tab' token'
      apply State.of_held_handOut tab access
    · split
      · rename_i handedOut record
        obtain ⟨expiresAt, record, -⟩ := Expiring.get_eq_some_iff.mp record
        apply ended
        apply h.handOut
        apply (h.hold.records _ _ record).1
      · apply (h.del token.familyId).ended

theorem refreshStep (h : Rotations grace s) {tab : Option ℕ} {since : Revocations}
    {token : RefreshToken} {phase : RefreshPhase}
    (hc : s.calls i = some (.refresh tab since token phase)) :
  Rotations grace (s.refreshStep grace i tab since token phase)
  := by
  have fits := h.calls i _ hc
  have mem := fits.proper.1
  cases phase with
  | decode =>
    rw [State.refreshStep]
    split
    · apply h.ended
    · exact h.goOn (.of_nil rfl ⟨mem, trivial⟩)
  | family =>
    rw [State.refreshStep]
    split
    · apply h.ended
    · exact h.goOn (.of_nil rfl ⟨mem, trivial⟩)
  | account =>
    have read : Rotations grace { s with reads := s.reads + 1 } :=
      h.keep (Nat.le_refl _) rfl rfl rfl rfl rfl rfl (fun _ _ he => he) rfl
    rw [State.refreshStep]
    split
    · apply read.ended
    · split
      · apply read.ended
      · split
        · exact read.goOn (.of_nil rfl ⟨mem, trivial⟩)
        · exact read.goOn (.of_nil rfl ⟨mem, trivial⟩)
  | stale => apply (h.del token.familyId).ended
  | access version readAt => exact (h.draw i).goOn (.of_nil rfl ⟨mem, trivial⟩)
  | mint version readAt access =>
    apply (h.draw i).goOn
    refine Fits.draw h fits ?_ ⟨mem, rfl⟩
    intro u drawn
    right
    apply List.mem_singleton.mp drawn
  | time access issued expiresAt =>
    apply h.goOn
    exact fits.of_subset (List.Subset.refl _) ⟨mem, fits.proper.2, secondsUntil_pos _ _⟩
  | rotate access issued ttl => apply h.rotate hc

theorem loginStep (h : Rotations grace s) {tab : ℕ} {user : UserId} {phase : LoginPhase}
    (hc : s.calls i = some (.login tab user phase)) :
  Rotations grace (s.loginStep i tab user phase)
  := by
  have fits := h.calls i _ hc
  cases phase with
  | account =>
    have read : Rotations grace { s with reads := s.reads + 1 } :=
      h.keep (Nat.le_refl _) rfl rfl rfl rfl rfl rfl (fun _ _ he => he) rfl
    rw [State.loginStep]
    split
    · apply read.done
    · split
      · apply read.done
      · apply (read.draw i).goOn
        refine Fits.draw read (c := .login tab user .account) (.of_nil rfl trivial) ?_ trivial
        intro u drawn
        right
        apply List.mem_singleton.mp drawn
  | access version readAt family =>
    apply (h.draw i).goOn
    refine Fits.draw h fits ?_ trivial
    intro u drawn
    left
    apply drawn
  | mint version readAt access =>
    apply (h.draw i).goOn
    refine Fits.draw h fits ?_ trivial
    intro u drawn
    obtain rfl | drawn := List.mem_cons.mp drawn
    · left
      apply List.mem_singleton_self
    · right
      apply List.mem_singleton.mp drawn
  | time access issued expiresAt =>
    apply h.goOn
    exact fits.of_subset (List.Subset.refl _) (secondsUntil_pos _ _)
  | store access issued ttl =>
    have family : issued.familyId ∈ [issued.familyId, issued.jti] := List.mem_cons_self
    have jti : issued.jti ∈ [issued.familyId, issued.jti] :=
      List.mem_cons_of_mem _ (List.mem_singleton_self _)
    rw [State.loginStep]
    refine h.issue hc jti (.inl family) ?_ rfl rfl rfl rfl
    refine h.hold_store fits family jti rfl rfl ?_ rfl rfl rfl rfl
    intro tab' token'
    apply State.of_held_handOut (some tab) access

theorem loggedOut (h : Rotations grace s) (i : ℕ) (access : AccessToken) :
  Rotations grace (s.loggedOut i access)
  := (h.done i).keep (Nat.le_refl _) rfl rfl rfl rfl rfl rfl (fun _ _ he => he) rfl

theorem logoutStep (h : Rotations grace s) (i : ℕ) (access : AccessToken)
    (refresh : Option RefreshToken) (phase : LogoutPhase) :
  Rotations grace (s.logoutStep i access refresh phase)
  := by
  cases phase with
  | time => exact h.goOn (.of_nil rfl trivial)
  | deny remaining =>
    have denied : Rotations grace
        (if 0 < remaining then
          { s with denied := s.denied.set access.jti () (s.now + remaining * second) }
        else s) := by
      split
      · exact h.keep (Nat.le_refl _) rfl rfl rfl rfl rfl rfl (fun _ _ he => he) rfl
      · apply h
    cases refresh with
    | none => exact denied.loggedOut i access
    | some token => exact denied.goOn (.of_nil rfl trivial)
  | decode token =>
    rw [State.logoutStep]
    split
    · apply h.loggedOut
    · exact h.goOn (.of_nil rfl trivial)
  | delete token => apply (h.del token.familyId).loggedOut

theorem revokeStep (h : Rotations grace s) (i : ℕ) (user : UserId) (phase : RevokePhase) :
  Rotations grace (s.revokeStep i user phase)
  := by
  cases phase with
  | bump =>
    have bumped : Rotations grace (s.bump user) :=
      h.keep (Nat.le_refl _) rfl rfl rfl rfl rfl rfl (fun _ _ he => he) rfl
    exact bumped.goOn (.of_nil rfl trivial)
  | mark minimum readAt =>
    exact (h.done i).keep (Nat.le_refl _) rfl rfl rfl rfl rfl rfl (fun _ _ he => he) rfl

theorem verifyStep (h : Rotations grace s) (i : ℕ) (since : Revocations) (token : AccessToken)
    (phase : VerifyPhase) :
  Rotations grace (s.verifyStep i since token phase)
  := by
  cases phase with
  | decode =>
    rw [State.verifyStep]
    split
    · apply h.done
    · exact h.goOn (.of_nil rfl trivial)
  | denied =>
    rw [State.verifyStep]
    split
    · apply h.done
    · exact h.goOn (.of_nil rfl trivial)
  | minimum =>
    rw [State.verifyStep]
    split
    · apply h.done
    · exact (h.done i).keep (Nat.le_refl _) rfl rfl rfl rfl rfl rfl (fun _ _ he => he) rfl

theorem callStep (h : Rotations grace s) (hc : s.calls i = some c) :
  Rotations grace (s.callStep grace i c)
  := by
  cases c with
  | refresh tab since token phase => apply h.refreshStep hc
  | login tab user phase => apply h.loginStep hc
  | logout access refresh phase => apply h.logoutStep
  | revoke user phase => apply h.revokeStep
  | verify since token phase => apply h.verifyStep

theorem start (h : Rotations grace s) (hstart : s.start i c = some t) (drawn : c.drawn = [])
    (proper : c.Proper s.handed) :
  Rotations grace t
  := by
  unfold State.start at hstart
  split at hstart
  · cases hstart
    apply h.goOn (.of_nil drawn proper)
  · cases hstart

theorem step (h : Rotations grace s) {a : Action} (hstep : s.step grace a = some t) :
  Rotations grace t
  := by
  cases a with
  | tick microseconds =>
    cases hstep
    exact h.keep (Nat.le_add_right ..) rfl rfl rfl rfl rfl rfl (fun _ _ he => he) rfl
  | step i =>
    obtain ⟨c, hc, rfl⟩ := Option.map_eq_some_iff.mp hstep
    apply h.callStep hc
  | abandon i =>
    cases hstep
    apply h.done
  | createUser user =>
    rw [State.step] at hstep
    split at hstep
    · cases hstep
      exact h.keep (Nat.le_refl _) rfl rfl rfl rfl rfl rfl (fun _ _ he => he) rfl
    · cases hstep
  | setActive user active =>
    cases hstep
    exact h.keep (Nat.le_refl _) rfl rfl rfl rfl rfl rfl (fun _ _ he => he) rfl
  | bumpTokenVersion user =>
    cases hstep
    exact h.keep (Nat.le_refl _) rfl rfl rfl rfl rfl rfl (fun _ _ he => he) rfl
  | login i tab user =>
    rw [State.step] at hstep
    exact h.start hstep rfl trivial
  | openTab tab beside =>
    cases hstep
    constructor
    · refine h.hold.keep (Nat.le_refl _) (Nat.le_refl _) rfl ?_ rfl rfl (fun _ _ he => he)
      intro tab' token held
      have held : Function.update s.held tab (s.held beside) tab' = some token := held
      by_cases same : tab' = tab
      · subst same
        rw [Function.update_self] at held
        apply h.hold.held beside token held
      · rw [Function.update_of_ne same] at held
        apply h.hold.held tab' token held
    · intro j c hc
      exact (h.calls j c hc).keep (Nat.le_refl _) (fun _ _ => rfl) rfl
  | refresh i tab =>
    obtain ⟨token, held, hstart⟩ := Option.bind_eq_some_iff.mp hstep
    exact h.start hstart rfl ⟨h.hold.held tab token held, trivial⟩
  | present i token =>
    rw [State.step] at hstep
    split at hstep
    · rename_i mem
      exact h.start hstep rfl ⟨mem, trivial⟩
    · cases hstep
  | logout i access refresh =>
    rw [State.step] at hstep
    split at hstep
    · exact h.start hstep rfl trivial
    · cases hstep
  | revokeAll i user =>
    rw [State.step] at hstep
    exact h.start hstep rfl trivial
  | verify i token =>
    rw [State.step] at hstep
    split at hstep
    · exact h.start hstep rfl trivial
    · cases hstep

end Rotations

/-! ### What the refreshes come to -/

namespace State

variable {tab : Option ℕ} {since : Revocations} {token issued : RefreshToken}
  {access : AccessToken}

theorem ended_sound_iff (sound : s.RotationSound grace)
    (result : Except AuthError RefreshToken) (before : Option ℕ) :
  (s.ended i tab since token result before).RotationSound grace ↔
    Refreshed.Sound grace
      { tab := tab
        since := since
        presented := token
        result := result
        current := s.families.get s.now token.familyId
        rotatedAt := before
        time := s.now }
  := by
  constructor
  · intro all
    apply all _ List.mem_cons_self
  · intro last e mem
    obtain rfl | mem := List.mem_cons.mp mem
    · apply last
    · apply sound e mem

/-- A refresh may fail if it is not an honest one, and must not leave the family of a replay. -/
theorem failed_sound_iff (sound : s.RotationSound grace) (x : AuthError) :
  (s.failed i tab since token x).RotationSound grace ↔
    ¬s.Honest grace tab token ∧ (s.Late grace token → ¬s.Alive token)
  := by
  unfold failed
  rw [ended_sound_iff sound]
  constructor
  · intro last
    constructor
    · rintro ⟨someTab, inTime⟩
      obtain ⟨token', result, -⟩ := last.current someTab inTime
      cases result
    · rintro ⟨r, rotated, late⟩ alive
      apply alive (last.replay r rotated late).2
  · rintro ⟨dishonest, gone⟩
    constructor
    · intro someTab inTime
      cases dishonest ⟨someTab, inTime⟩
    · intro r rotated late
      exact ⟨⟨x, rfl⟩, not_not.mp (gone ⟨r, rotated, late⟩)⟩

/-- A failed refresh is fine if it is not an honest one and the family is gone. -/
theorem failed_sound_iff_of_gone (sound : s.RotationSound grace) (gone : ¬s.Alive token)
    (x : AuthError) :
  (s.failed i tab since token x).RotationSound grace ↔ ¬s.Honest grace tab token
  := by
  rw [failed_sound_iff sound]
  constructor
  · intro both
    apply both.1
  · intro dishonest
    exact ⟨dishonest, fun _ => gone⟩

theorem not_alive_del (s : State) (token : RefreshToken) :
  ¬Alive { s with families := s.families.del token.familyId } token
  := by
  apply not_not.mpr
  apply Expiring.get_eq_none_of_none
  apply Expiring.del_self

/-- When a refresh has deleted the family, it must not be an honest one. -/
theorem del_failed_sound_iff (sound : s.RotationSound grace) (x : AuthError) :
  (State.failed { s with families := s.families.del token.familyId } i tab since token
      x).RotationSound grace ↔ ¬s.Honest grace tab token
  := by
  have sound' : RotationSound grace { s with families := s.families.del token.familyId } := sound
  apply failed_sound_iff_of_gone sound' (not_alive_del s token)

/-- A token that is in time and is not the current one of its family has a record that is read. -/
theorem record_of_honest (h : Hold grace s) (mem : token ∈ s.handed)
    (honest : s.Honest grace tab token) {current : Jti}
    (found : s.families.get s.now token.familyId = some current) (other : current ≠ token.jti) :
  s.rotated.get s.now token.jti ≠ none
  := by
  obtain ⟨expiresAt, entry, -⟩ := Expiring.get_eq_some_iff.mp found
  cases rotated : s.rotatedAt token.jti with
  | none => cases other (h.newest token mem rotated _ entry)
  | some r =>
    have inTime := honest.2 r rotated
    have past := (h.rotatedAt _ r rotated).1
    have pos : 0 < grace := by
      apply Nat.pos_of_ne_zero
      rintro rfl
      omega
    cases record : s.rotated token.jti with
    | none => cases h.recorded pos _ r rotated record
    | some e =>
      obtain ⟨-, -, r', rotated', expires⟩ := h.records _ e record
      cases rotated.symm.trans rotated'
      have read : s.rotated.get s.now token.jti = some e.value := by
        apply Expiring.get_eq_some_iff.mpr
        refine ⟨e.expiresAt, record, ?_⟩
        rw [expires]
        apply inTime
      rw [read]
      nofun

/-- The record of a token that was rotated is not read when the grace is over. -/
theorem in_time_of_record (h : Hold grace s) {handedOut : RefreshToken}
    (record : s.rotated.get s.now token.jti = some handedOut) :
  ¬s.Late grace token
  := by
  rintro ⟨r, rotated, late⟩
  obtain ⟨expiresAt, entry, live⟩ := Expiring.get_eq_some_iff.mp record
  obtain ⟨-, -, r', rotated', expires⟩ := h.records _ _ entry
  cases rotated.symm.trans rotated'
  have expires : expiresAt = r + grace * second := expires
  omega

/-- A record hands out the current token of the family exactly if that token has not been rotated
itself. -/
theorem current_iff_of_record (h : Hold grace s) (mem : token ∈ s.handed) {current : Jti}
    (found : s.families.get s.now token.familyId = some current) {handedOut : RefreshToken}
    (record : s.rotated.get s.now token.jti = some handedOut) :
  current = handedOut.jti ↔ s.SuccessorNewest token
  := by
  obtain ⟨expiresAt, entry, -⟩ := Expiring.get_eq_some_iff.mp found
  obtain ⟨expiresAt', entry', -⟩ := Expiring.get_eq_some_iff.mp record
  obtain ⟨mem', family, -⟩ := h.records _ _ entry'
  constructor
  · rintro rfl e he
    cases entry'.symm.trans he
    apply (h.current _ _ entry).1
  · intro newest
    rw [← family token mem rfl] at entry
    apply h.newest handedOut mem' (newest _ entry') _ entry

theorem rotate_sound_iff (h : Rotations grace s) (sound : s.RotationSound grace) {ttl : ℕ}
    (hc : s.calls i = some (.refresh tab since token (.rotate access issued ttl))) :
  (s.rotate grace i tab since token access issued ttl).RotationSound grace ↔
    (s.Honest grace tab token → s.Alive token ∧ s.SuccessorNewest token)
  := by
  obtain ⟨mem, family, pos⟩ := (h.calls i _ hc).proper
  have hold := h.hold
  unfold rotate
  split
  · rename_i gone
    have gone : ¬s.Alive token := not_not.mpr gone
    rw [failed_sound_iff_of_gone sound gone]
    constructor
    · intro dishonest honest
      cases dishonest honest
    · intro guard honest
      apply gone (guard honest).1
  · rename_i current found
    have alive : s.Alive token := by
      unfold Alive
      rw [found]
      nofun
    obtain ⟨expiresAt, entry, -⟩ := Expiring.get_eq_some_iff.mp found
    split
    · -- the token is the current one, and has not been rotated before
      rename_i same
      subst same
      have unrotated := (hold.current _ _ entry).1
      apply iff_of_true
      · intro e mem
        obtain rfl | mem := List.mem_cons.mp mem
        · constructor
          · intro _ _
            refine ⟨issued, rfl, ?_⟩
            apply Expiring.get_eq_some_iff.mpr
            refine ⟨s.now + ttl * second, Expiring.set_self .., ?_⟩
            apply Nat.lt_add_of_pos_right (Nat.mul_pos pos (by decide))
          · intro r rotated
            cases unrotated.symm.trans rotated
        · apply sound e mem
      · intro _
        refine ⟨alive, ?_⟩
        intro e record
        obtain ⟨-, -, r, rotated, -⟩ := hold.records _ e record
        cases unrotated.symm.trans rotated
    · rename_i other
      split
      · rename_i handedOut record
        have current_iff := current_iff_of_record hold mem found record
        have sound' : (s.handOut tab access handedOut).RotationSound grace := sound
        rw [ended_sound_iff sound']
        constructor
        · intro last honest
          refine ⟨alive, current_iff.mp ?_⟩
          obtain ⟨token', result, current⟩ := last.current honest.1 honest.2
          cases result
          apply Option.some.inj (found.symm.trans current)
        · intro guard
          constructor
          · intro someTab inTime
            refine ⟨handedOut, rfl, ?_⟩
            rw [← current_iff.mpr (guard ⟨someTab, inTime⟩).2]
            apply found
          · intro r rotated late
            cases in_time_of_record hold record ⟨r, rotated, late⟩
      · -- a replay
        rename_i unread
        have dishonest : ¬s.Honest grace tab token :=
          fun honest => record_of_honest hold mem honest found other unread
        apply iff_of_true
        · exact (del_failed_sound_iff sound _).mpr dishonest
        · intro honest
          cases dishonest honest

/-- A step of a refresh keeps what is expected exactly if it is undisturbed. -/
theorem refreshStep_sound_iff (h : Rotations grace s) (sound : s.RotationSound grace)
    {phase : RefreshPhase} (hc : s.calls i = some (.refresh tab since token phase)) :
  (s.refreshStep grace i tab since token phase).RotationSound grace ↔
    s.Undisturbed grace tab token phase
  := by
  cases phase with
  | decode =>
    rw [refreshStep]
    split
    · rename_i late
      rw [failed_sound_iff sound]
      constructor
      · intro fine _
        apply fine
      · intro guard
        apply guard late
    · rename_i early
      apply iff_of_true sound
      intro late
      cases early late
  | family =>
    rw [refreshStep]
    split
    · rename_i gone
      have gone : ¬s.Alive token := not_not.mpr gone
      rw [failed_sound_iff_of_gone sound gone]
      constructor
      · intro dishonest _
        apply dishonest
      · intro guard
        apply guard gone
    · rename_i found
      apply iff_of_true sound
      intro gone
      rw [not_not.mp gone] at found
      cases found
  | account =>
    have sound' : RotationSound grace { s with reads := s.reads + 1 } := sound
    have failed : s.Disabled token →
        ((State.failed { s with reads := s.reads + 1 } i tab since token
          .disabled).RotationSound grace ↔ s.Undisturbed grace tab token .account) := by
      intro disabled
      rw [failed_sound_iff sound']
      constructor
      · intro fine _
        apply fine
      · intro guard
        apply guard disabled
    rw [refreshStep]
    split
    · rename_i missing
      apply failed
      intro user found
      cases missing.symm.trans found
    · rename_i user found
      split
      · rename_i inactive
        apply failed
        intro user' found'
        cases found.symm.trans found'
        apply inactive
      · rename_i active
        have enabled : s.Undisturbed grace tab token .account :=
          fun disabled => absurd (disabled user found) active
        split
        · apply iff_of_true sound enabled
        · apply iff_of_true sound enabled
  | stale => apply del_failed_sound_iff sound
  | access version readAt => apply iff_of_true sound trivial
  | mint version readAt access => apply iff_of_true sound trivial
  | time access issued expiresAt => apply iff_of_true sound trivial
  | rotate access issued ttl => apply rotate_sound_iff h sound hc

theorem refreshes_start (h : s.start i c = some t) :
  t.refreshes = s.refreshes
  := by
  unfold start at h
  split at h
  · cases h
    rfl
  · cases h

/-- Only a call of `refresh` adds to the refreshes. -/
theorem refreshes_callStep (h : ∀ tab since token phase, c ≠ .refresh tab since token phase) :
  (s.callStep grace i c).refreshes = s.refreshes
  := by
  cases c with
  | refresh tab since token phase => cases h tab since token phase rfl
  | login tab user phase =>
    cases phase with
    | account =>
      rw [callStep, loginStep]
      split
      · rfl
      · split
        · rfl
        · rfl
    | _ => rfl
  | logout access refresh phase =>
    cases phase with
    | deny remaining =>
      cases refresh with
      | none =>
        rw [callStep, logoutStep]
        split
        · rfl
        · rfl
      | some token =>
        rw [callStep, logoutStep]
        split
        · rfl
        · rfl
    | decode token =>
      rw [callStep, logoutStep]
      split
      · rfl
      · rfl
    | _ => rfl
  | revoke user phase =>
    cases phase with
    | _ => rfl
  | verify since token phase =>
    cases phase with
    | _ =>
      rw [callStep, verifyStep]
      split
      · rfl
      · rfl

/-- Any other step than one of a refresh leaves the refreshes as they are. -/
theorem refreshes_step {a : Action} (hstep : s.step grace a = some t)
    (h : ∀ i tab since token phase, a = .step i →
      s.calls i ≠ some (.refresh tab since token phase)) :
  t.refreshes = s.refreshes
  := by
  cases a with
  | step i =>
    obtain ⟨c, hc, rfl⟩ := Option.map_eq_some_iff.mp hstep
    apply refreshes_callStep
    rintro tab since token phase rfl
    apply h i tab since token phase rfl hc
  | createUser user =>
    rw [step] at hstep
    split at hstep
    · cases hstep
      rfl
    · cases hstep
  | login i tab user => apply refreshes_start hstep
  | refresh i tab =>
    obtain ⟨token, -, hstart⟩ := Option.bind_eq_some_iff.mp hstep
    apply refreshes_start hstart
  | present i token =>
    rw [step] at hstep
    split at hstep
    · apply refreshes_start hstep
    · cases hstep
  | logout i access refresh =>
    rw [step] at hstep
    split at hstep
    · apply refreshes_start hstep
    · cases hstep
  | revokeAll i user => apply refreshes_start hstep
  | verify i token =>
    rw [step] at hstep
    split at hstep
    · apply refreshes_start hstep
    · cases hstep
  | _ =>
    cases hstep
    rfl

end State

theorem step_sound_iff (h : Rotations grace s) (sound : s.RotationSound grace) {a : Action}
    (hstep : s.step grace a = some t) :
  t.RotationSound grace ↔ Undisturbed grace s a
  := by
  have other : t.refreshes = s.refreshes → t.RotationSound grace := by
    intro same
    unfold State.RotationSound
    rw [same]
    apply sound
  cases a with
  | step i =>
    obtain ⟨c, hc, rfl⟩ := Option.map_eq_some_iff.mp hstep
    simp only [Undisturbed, hc]
    cases c with
    | refresh tab since token phase => apply State.refreshStep_sound_iff h sound hc
    | _ =>
      apply iff_of_true _ trivial
      apply other
      apply State.refreshes_callStep
      nofun
  | _ =>
    apply iff_of_true _ trivial
    apply other
    apply State.refreshes_step hstep
    nofun

/-- In a run, all refreshes are as expected exactly if all of their steps are undisturbed. -/
theorem rotation_sound_iff {h : List (State × Action)} (run : (service grace).Run h s) :
  (∀ t ∈ Machine.states h s, t.RotationSound grace) ↔ ∀ x ∈ h, Undisturbed grace x.1 x.2
  := by
  apply run.forall_states_iff (W := Rotations grace)
  · rintro s rfl
    exact ⟨Rotations.initial, nofun⟩
  · intro a s t h hstep
    apply h.step hstep
  · intro a s t h sound hstep
    apply step_sound_iff h sound hstep

/-! ### A session of two tabs -/

/-- The steps of logins and of tabs; a refresh is only at work while its token has not been rotated
or is in its grace. -/
def OfHonestTabs (grace : ℕ) (s : State) : Action → Bool
  | .tick _ | .createUser _ | .login _ _ _ | .openTab _ _ | .refresh _ _ => true
  | .step i =>
      match s.calls i with
      | some (.refresh _ _ token _) =>
          (s.rotatedAt token.jti).all fun r => decide (s.now < r + grace * second)
      | _ => true
  | _ => false

/-- The refresh of one tab is on its way while another tab refreshes twice in a second. -/
def overtaken : List Action :=
  [.createUser 0, .login 0 0 0] ++ .replicate 5 (.step 0) ++ [.openTab 1 0, .refresh 1 1] ++
    .refresh 0 0 :: .replicate 7 (.step 0) ++ .refresh 0 0 :: .replicate 7 (.step 0) ++
    .tick second :: .replicate 7 (.step 1)

/-- What a refresh of a tab has been given, if it is not the current token of the family. -/
def Refreshed.outdated (e : Refreshed) : Option RefreshToken :=
  e.result.toOption.filter fun token => e.tab.isSome && !(e.current == some token.jti)

/-- All tabs are honest and in time, and one of them is given a token that is not the current one of
the family. -/
theorem exists_outdated_of_honest_tabs :
  ∃ h s, (service 10).Run h s ∧ h.map Prod.snd = overtaken.reverse ∧
    (∀ x ∈ h, OfHonestTabs 10 x.1 x.2 = true) ∧
    ∃ e ∈ s.refreshes, e.tab ≠ none ∧ ∃ token, e.result = .ok token ∧ e.current ≠ some token.jti
  := by
  obtain ⟨h, s, run, actions, honest, outdated⟩ := Machine.exists_history_of_execWhile
    (M := service 10) overtaken (OfHonestTabs 10) (·.refreshes.any (·.outdated.isSome)) rfl
    (by decide)
  obtain ⟨e, mem, outdated⟩ := List.any_eq_true.mp outdated
  obtain ⟨token, outdated⟩ := Option.isSome_iff_exists.mp outdated
  obtain ⟨result, someTab⟩ := Option.filter_eq_some_iff.mp outdated
  refine ⟨h, s, run, actions, honest, e, mem, ?_⟩
  simp only [Bool.and_eq_true, Option.isSome_iff_ne_none, Bool.not_eq_true', beq_eq_false_iff_ne]
    at someTab
  refine ⟨someTab.1, token, ?_, someTab.2⟩
  cases ok : e.result with
  | error x =>
    rw [ok] at result
    cases result
  | ok token' =>
    rw [ok] at result
    cases result
    rfl

/-- The equivalence at the run of the two tabs. -/
theorem rotation_sound_iff_overtaken :
  ∃ h s, (service 10).Run h s ∧ h.map Prod.snd = overtaken.reverse ∧
    ((∀ t ∈ Machine.states h s, t.RotationSound 10) ↔ ∀ x ∈ h, Undisturbed 10 x.1 x.2)
  := by
  obtain ⟨h, s, run, actions, -, -⟩ := Machine.exists_history_of_execWhile (M := service 10)
    overtaken (OfHonestTabs 10) (fun _ => true) rfl (by decide)
  exact ⟨h, s, run, actions, rotation_sound_iff run⟩

end Lumina.Identity
