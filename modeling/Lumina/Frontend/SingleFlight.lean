import Lumina.Frontend.Client

/-!
# The refresh is single-flight

No two calls of the refresh endpoint overlap exactly if the call of `bootstrap` and the shared
refresh do not start while the other one is in flight.  What is said about the replays and about the
end of a session holds along every run.
-/

namespace Lumina.Frontend

open Transition

/-- The call of the refresh endpoint that `bootstrap` makes is in flight. -/
def ApiRequest.refreshing (r : ApiRequest) : Bool :=
  r.path = .refresh && r.phase = .calling

namespace Client

/-- The calls of the refresh endpoint that are in flight. -/
def refreshCalls (s : Client) : ℕ :=
  (if s.refreshInFlight.isSome then 1 else 0) + s.requests.countP (·.refreshing)

/-- An expired token of this request starts a shared refresh. -/
def StartsRefresh (s : Client) (r : ApiRequest) : Prop :=
  isAuthPath r.path = false ∧ (s.accessToken = none ∨ s.accessToken = r.usedToken) ∧
    s.refreshInFlight = none

/-- Neither of the two ways to the refresh endpoint is taken while the other one is. -/
def Exclusive (s : Client) : ClientAction → Prop
  | .bootstrap => s.bootstrapped = false → s.accessToken = none → s.refreshInFlight = none
  | .answer i .tokenExpired =>
      ∀ r, s.requests[i]? = some r → r.phase = .calling → s.StartsRefresh r →
        ∀ other ∈ s.requests, other.refreshing = false
  | _ => True

/-! ### What an expired token does -/

/-- What becomes of a request whose token has expired. -/
inductive Expired (s : Client) (i : ℕ) (r : ApiRequest) : Client → Prop
  | settled : isAuthPath r.path = true → Expired s i r (s.setRequest i r.settle)
  | replayed (current : ℕ) :
      isAuthPath r.path = false → s.accessToken = some current → s.accessToken ≠ r.usedToken →
        Expired s i r (s.setRequest i (r.replay current))
  | joined (n : ℕ) :
      isAuthPath r.path = false → s.refreshInFlight = some n →
        Expired s i r (s.setRequest i (r.wait n))
  | started :
      s.StartsRefresh r →
        Expired s i r
          { s with
            refreshInFlight := some s.refreshes.length
            refreshes := s.refreshes ++ [.inFlight]
            requests := s.requests.set i (r.wait s.refreshes.length) }

theorem expired_cases (s : Client) (i : ℕ) (r : ApiRequest) :
  Expired s i r (s.expired i r)
  := by
  have shared (api : isAuthPath r.path = false)
      (unchanged : s.accessToken = none ∨ s.accessToken = r.usedToken) :
      Expired s i r (s.sharedRefresh.1.setRequest i (r.wait s.sharedRefresh.2)) := by
    cases flight : s.refreshInFlight with
    | some n =>
      unfold sharedRefresh
      rw [flight]
      exact Expired.joined n api flight
    | none =>
      unfold sharedRefresh
      rw [flight]
      exact Expired.started ⟨api, unchanged, flight⟩
  unfold expired
  by_cases auth : isAuthPath r.path = true
  · rw [if_pos auth]
    exact Expired.settled auth
  · rw [if_neg auth]
    have api : isAuthPath r.path = false := Bool.eq_false_iff.mpr auth
    cases token : s.accessToken with
    | none => exact shared api (Or.inl token)
    | some current =>
      dsimp only
      split_ifs with newer
      · exact Expired.replayed current api token (by rw [token]; exact newer)
      · exact shared api (Or.inr (by rw [token]; exact not_not.mp newer))

/-! ### The calls in flight -/

theorem countP_setRequest {s : Client} {i : ℕ} {r r' : ApiRequest} (h : s.requests[i]? = some r)
    (settled : r'.refreshing = false) :
  (s.requests.set i r').countP (·.refreshing) =
    s.requests.countP (·.refreshing) - if r.refreshing then 1 else 0
  := by
  obtain ⟨inside, here⟩ := List.getElem?_eq_some_iff.mp h
  rw [List.countP_set inside, here, settled]
  simp

/-- A request to another path is replaced by one that does not call the refresh endpoint. -/
theorem countP_setRequest_of_api {s : Client} {i : ℕ} {r r' : ApiRequest}
    (h : s.requests[i]? = some r) (api : isAuthPath r.path = false)
    (settled : r'.refreshing = false) :
  (s.requests.set i r').countP (·.refreshing) = s.requests.countP (·.refreshing)
  := by
  have other : r.refreshing = false := by
    unfold ApiRequest.refreshing
    cases path : r.path with
    | refresh =>
      rw [path] at api
      cases api
    | auth => rfl
    | api => rfl
  rw [countP_setRequest h settled, other]
  rfl

theorem refreshing_update (n : ℕ) {f : ApiRequest → ApiRequest}
    (settled : ∀ r, (f r).refreshing = false) (requests : List ApiRequest) :
  (Table.update (·.awaits n) f requests).countP (·.refreshing) =
    requests.countP (·.refreshing)
  := by
  unfold Table.update
  rw [List.countP_map]
  apply List.countP_congr
  intro r _
  rw [Function.comp_apply]
  split_ifs with waiting
  · have other : r.refreshing = false := by
      unfold ApiRequest.awaits at waiting
      unfold ApiRequest.refreshing
      have phase : r.phase = .waiting := of_decide_eq_true (Bool.and_eq_true_iff.mp waiting).1
      simp [phase]
    rw [settled, other]
  · exact Iff.rfl

/-! ### The invariant -/

/-- What a request has done, and what the refresh that it has awaited has come to. -/
structure RequestSound (refreshes : List Refresh) (r : ApiRequest) : Prop where
  calls : r.calls = if r.replayed.isSome then 2 else 1
  first : r.phase = .calling ∨ r.phase = .waiting → r.replayed = none
  fresh : r.phase = .calling → r.awaited = none
  awaited : ∀ n, r.awaited = some n →
    (refreshes[n]? = some .inFlight ∧ r.phase = .waiting) ∨
      (∃ T, refreshes[n]? = some (.succeeded T) ∧ r.replayed = some T) ∨
        refreshes[n]? = some .failed ∧ r.replayed = none

namespace RequestSound

variable {refreshes : List Refresh} {r : ApiRequest}

theorem settle (h : RequestSound refreshes r) (phase : r.phase ≠ .waiting) :
  RequestSound refreshes r.settle
  where
  calls := h.calls
  first := by
    rintro (calling | waiting)
    · cases calling
    · cases waiting
  fresh := nofun
  awaited n hn := by
    obtain ⟨-, waiting⟩ | done := h.awaited n hn
    · exact absurd waiting phase
    · exact Or.inr done

theorem replay (h : RequestSound refreshes r) (phase : r.phase = .calling) (T : ℕ) :
  RequestSound refreshes (r.replay T)
  where
  calls := by
    have calls := h.calls
    rw [h.first (Or.inl phase)] at calls
    change r.calls + 1 = 2
    rw [calls]
    rfl
  first := by
    rintro (calling | waiting)
    · cases calling
    · cases waiting
  fresh := nofun
  awaited n hn := by
    have none := h.fresh phase
    exact absurd (hn.symm.trans none) (Option.some_ne_none n)

theorem wait (h : RequestSound refreshes r) (phase : r.phase = .calling) {n : ℕ}
    (flight : refreshes[n]? = some .inFlight) :
  RequestSound refreshes (r.wait n)
  where
  calls := h.calls
  first _ := h.first (Or.inl phase)
  fresh := nofun
  awaited m hm := by
    cases hm
    exact Or.inl ⟨flight, rfl⟩

/-- A new refresh has been awaited by nobody. -/
theorem append (h : RequestSound refreshes r) (refresh : Refresh) :
  RequestSound (refreshes ++ [refresh]) r
  where
  calls := h.calls
  first := h.first
  fresh := h.fresh
  awaited n hn := by
    have before := h.awaited n hn
    have inside : n < refreshes.length := by
      by_contra outside
      rw [List.getElem?_eq_none (Nat.not_lt.mp outside)] at before
      obtain ⟨none, -⟩ | ⟨_, none, -⟩ | ⟨none, -⟩ := before
      all_goals cases none
    rw [List.getElem?_append_left inside]
    exact before

theorem awaits_iff {n : ℕ} :
  r.awaits n = true ↔ r.phase = .waiting ∧ r.awaited = some n
  := by
  simp [ApiRequest.awaits]

/-- Those that do not await a refresh have nothing to do with how it ends. -/
theorem of_not_awaits (h : RequestSound refreshes r) {n : ℕ}
    (flight : refreshes[n]? = some .inFlight) (idle : ¬ r.awaits n = true) (refresh : Refresh) :
  RequestSound (refreshes.set n refresh) r
  where
  calls := h.calls
  first := h.first
  fresh := h.fresh
  awaited m hm := by
    have other : n ≠ m := by
      rintro rfl
      obtain ⟨-, waiting⟩ | ⟨_, done, -⟩ | ⟨done, -⟩ := h.awaited n hm
      · exact idle (awaits_iff.mpr ⟨waiting, hm⟩)
      · cases flight.symm.trans done
      · cases flight.symm.trans done
    rw [List.getElem?_set_ne other]
    exact h.awaited m hm

/-- A refresh has succeeded, and those that awaited it are replayed. -/
theorem succeeded (h : RequestSound refreshes r) {n : ℕ} (flight : refreshes[n]? = some .inFlight)
    (T : ℕ) :
  RequestSound (refreshes.set n (.succeeded T)) (if r.awaits n then r.replay T else r)
  := by
  split_ifs with awaits
  · obtain ⟨waiting, awaited⟩ := awaits_iff.mp awaits
    obtain ⟨inside, -⟩ := List.getElem?_eq_some_iff.mp flight
    refine ⟨?_, ?_, nofun, ?_⟩
    · have calls := h.calls
      rw [h.first (Or.inr waiting)] at calls
      change r.calls + 1 = 2
      rw [calls]
      rfl
    · rintro (calling | waiting)
      · cases calling
      · cases waiting
    · intro m hm
      cases awaited.symm.trans hm
      exact Or.inr (Or.inl ⟨T, List.getElem?_set_self inside, rfl⟩)
  · exact h.of_not_awaits flight awaits _

/-- A refresh has failed, and those that awaited it give up. -/
theorem failed (h : RequestSound refreshes r) {n : ℕ} (flight : refreshes[n]? = some .inFlight) :
  RequestSound (refreshes.set n .failed) (if r.awaits n then r.settle else r)
  := by
  split_ifs with awaits
  · obtain ⟨waiting, awaited⟩ := awaits_iff.mp awaits
    obtain ⟨inside, -⟩ := List.getElem?_eq_some_iff.mp flight
    have unplayed := h.first (Or.inr waiting)
    refine ⟨h.calls, fun _ => unplayed, nofun, ?_⟩
    intro m hm
    cases awaited.symm.trans hm
    exact Or.inr (Or.inr ⟨List.getElem?_set_self inside, unplayed⟩)
  · exact h.of_not_awaits flight awaits _

end RequestSound

/-- The shared refresh that is in flight is the only one, and each failed one has ended the session
once. -/
structure Steady (s : Client) : Prop where
  bootstrap : s.bootstrapped = false → ∀ r ∈ s.requests, r.path ≠ .refresh
  flight : ∀ n, s.refreshInFlight = some n ↔ s.refreshes[n]? = some .inFlight
  requests : ∀ r ∈ s.requests, RequestSound s.refreshes r
  expirations : s.expirations = s.refreshes.countP (· = .failed)

/-- One request is replaced. -/
theorem Steady.setRequest {s : Client} (h : Steady s) {i : ℕ} {r r' : ApiRequest}
    (hr : s.requests[i]? = some r) (path : r'.path = r.path)
    (sound : RequestSound s.refreshes r') :
  Steady (s.setRequest i r')
  where
  bootstrap idle other hother := by
    obtain old | rfl := List.mem_or_eq_of_mem_set hother
    · exact h.bootstrap idle other old
    · rw [path]
      exact h.bootstrap idle r (List.mem_of_getElem? hr)
  flight := h.flight
  requests other hother := by
    obtain old | rfl := List.mem_or_eq_of_mem_set hother
    · exact h.requests other old
    · exact sound
  expirations := h.expirations

/-- A shared refresh starts. -/
theorem Steady.start {s : Client} (h : Steady s) (none : s.refreshInFlight = none) :
  Steady
    { s with
      refreshInFlight := some s.refreshes.length
      refreshes := s.refreshes ++ [.inFlight] }
  where
  bootstrap := h.bootstrap
  flight n := by
    have before : s.refreshes[n]? ≠ some .inFlight := by
      intro flying
      exact absurd ((h.flight n).mpr flying) (by simp [none])
    dsimp only
    rw [Option.some.injEq]
    constructor
    · rintro rfl
      exact List.getElem?_concat_length
    · intro flying
      by_contra other
      rcases Nat.lt_or_gt_of_ne other with above | below
      · have outside : (s.refreshes ++ [Refresh.inFlight]).length ≤ n := by
          rw [List.length_append]
          exact above
        rw [List.getElem?_eq_none outside] at flying
        cases flying
      · rw [List.getElem?_append_left below] at flying
        exact before flying
  requests r hr := (h.requests r hr).append _
  expirations := by
    dsimp only
    rw [List.countP_append, h.expirations]
    rfl

theorem Steady.expired {s t : Client} (h : Steady s) {i : ℕ} {r : ApiRequest}
    (hr : s.requests[i]? = some r) (phase : r.phase = .calling) (cases_ : Expired s i r t) :
  Steady t
  := by
  have sound := h.requests r (List.mem_of_getElem? hr)
  cases cases_ with
  | settled _ => exact h.setRequest hr rfl (sound.settle (by simp [phase]))
  | replayed current _ _ _ => exact h.setRequest hr rfl (sound.replay phase current)
  | joined n _ flight =>
    exact h.setRequest hr rfl (sound.wait phase ((h.flight n).mp flight))
  | started starts =>
    have started := h.start starts.2.2
    have waiting : RequestSound (s.refreshes ++ [.inFlight]) (r.wait s.refreshes.length) :=
      (sound.append _).wait phase List.getElem?_concat_length
    exact started.setRequest hr rfl waiting

theorem Steady.answer {s t : Client} (h : Steady s) {i : ℕ} {reply : Reply}
    (hstep : s.answer i reply = some t) :
  Steady t
  := by
  unfold Client.answer at hstep
  simp only [Option.bind_eq_bind, Option.bind_eq_some_iff] at hstep
  obtain ⟨r, hr, hstep⟩ := hstep
  have sound := h.requests r (List.mem_of_getElem? hr)
  have settled (phase : r.phase ≠ .waiting) : Steady (s.setRequest i r.settle) :=
    h.setRequest hr rfl (sound.settle phase)
  split at hstep
  · rename_i T phase
    have done := settled (by simp [phase])
    cases hstep
    split_ifs
    · exact ⟨done.bootstrap, done.flight, done.requests, done.expirations⟩
    · exact done
  · rename_i phase
    cases hstep
    exact h.expired hr phase (expired_cases s i r)
  · rename_i phase
    cases hstep
    exact settled (by simp [phase])
  · rename_i phase
    cases hstep
    exact settled (by simp [phase])
  · cases hstep
  · cases hstep

/-- What a shared refresh does when it ends. -/
theorem Steady.ended {s : Client} (h : Steady s) {n : ℕ} (flight : s.refreshInFlight = some n)
    {refresh : Refresh} (settled : refresh ≠ .inFlight) (m : ℕ) :
  none = some m ↔ (s.refreshes.set n refresh)[m]? = some .inFlight
  := by
  obtain ⟨inside, -⟩ := List.getElem?_eq_some_iff.mp ((h.flight n).mp flight)
  constructor
  · nofun
  · intro flying
    by_cases same : n = m
    · subst same
      rw [List.getElem?_set_self inside] at flying
      exact absurd (Option.some.inj flying) settled
    · rw [List.getElem?_set_ne same, ← h.flight m, flight] at flying
      exact absurd (Option.some.inj flying) same

/-- The requests that await a shared refresh are replaced when it ends. -/
theorem Steady.requests_update {s : Client} (h : Steady s) {n : ℕ}
    {f : ApiRequest → ApiRequest} {refresh : Refresh}
    (sound : ∀ r, RequestSound s.refreshes r →
      RequestSound (s.refreshes.set n refresh) (if r.awaits n then f r else r)) :
  ∀ r ∈ Table.update (·.awaits n) f s.requests, RequestSound (s.refreshes.set n refresh) r
  := by
  intro r hr
  obtain ⟨old, hold, rfl⟩ := Table.mem_update.mp hr
  exact sound old (h.requests old hold)

theorem Steady.bootstrap_update {s : Client} (h : Steady s) (n : ℕ)
    {f : ApiRequest → ApiRequest} (path : ∀ r, (f r).path = r.path)
    (idle : s.bootstrapped = false) :
  ∀ r ∈ Table.update (·.awaits n) f s.requests, r.path ≠ .refresh
  := by
  intro r hr
  obtain ⟨old, hold, rfl⟩ := Table.mem_update.mp hr
  split_ifs
  · rw [path]
    exact h.bootstrap idle old hold
  · exact h.bootstrap idle old hold

theorem countP_failed_set {refreshes : List Refresh} {n : ℕ}
    (flight : refreshes[n]? = some .inFlight) (refresh : Refresh) :
  (refreshes.set n refresh).countP (· = .failed) =
    refreshes.countP (· = .failed) + if refresh = .failed then 1 else 0
  := by
  obtain ⟨inside, here⟩ := List.getElem?_eq_some_iff.mp flight
  rw [List.countP_set inside, here]
  simp

theorem Steady.refreshed {s t : Client} (h : Steady s) {reply : Reply}
    (hstep : s.refreshed reply = some t) :
  Steady t
  := by
  unfold Client.refreshed at hstep
  simp only [Option.bind_eq_bind, Option.bind_eq_some_iff] at hstep
  obtain ⟨n, flight, hstep⟩ := hstep
  have flying := (h.flight n).mp flight
  split at hstep
  · rename_i T
    cases hstep
    refine ⟨h.bootstrap_update n fun _ => rfl, h.ended flight nofun,
      h.requests_update fun r hr => hr.succeeded flying T, ?_⟩
    dsimp only
    rw [countP_failed_set flying, h.expirations]
    rfl
  · cases hstep
    refine ⟨h.bootstrap_update n fun _ => rfl, h.ended flight nofun,
      h.requests_update fun r hr => hr.failed flying, ?_⟩
    dsimp only
    rw [countP_failed_set flying, h.expirations]
    rfl

theorem Steady.step {s t : Client} {a : ClientAction} (h : Steady s) (hstep : s.step a = some t) :
  Steady t
  := by
  cases a with
  | bootstrap =>
    cases hstep
    unfold Client.bootstrap
    split_ifs with done
    · exact h
    · dsimp only
      split
      · exact ⟨nofun, h.flight, h.requests, h.expirations⟩
      · refine ⟨nofun, h.flight, ?_, h.expirations⟩
        intro r hr
        obtain old | new := List.mem_append.mp hr
        · exact h.requests r old
        · obtain rfl := List.mem_singleton.mp new
          exact ⟨rfl, fun _ => rfl, fun _ => rfl, nofun⟩
  | request auth =>
    cases hstep
    refine ⟨?_, h.flight, ?_, h.expirations⟩
    · intro idle r hr
      obtain old | new := List.mem_append.mp hr
      · exact h.bootstrap idle r old
      · obtain rfl := List.mem_singleton.mp new
        cases auth
        · nofun
        · nofun
    · intro r hr
      obtain old | new := List.mem_append.mp hr
      · exact h.requests r old
      · obtain rfl := List.mem_singleton.mp new
        exact ⟨rfl, fun _ => rfl, fun _ => rfl, nofun⟩
  | answer i reply => exact h.answer hstep
  | refreshed reply => exact h.refreshed hstep
  | loggedIn T =>
    cases hstep
    exact ⟨h.bootstrap, h.flight, h.requests, h.expirations⟩
  | loggedOut =>
    cases hstep
    exact ⟨h.bootstrap, h.flight, h.requests, h.expirations⟩

/-! ### No two calls overlap -/

/-- Fewer calls of the refresh endpoint are no more than one. -/
theorem refreshCalls_of_le {s t : Client}
    (shared : t.refreshInFlight.isSome = true → s.refreshInFlight.isSome = true)
    (own : t.requests.countP (·.refreshing) ≤ s.requests.countP (·.refreshing))
    (single : s.refreshCalls ≤ 1) :
  t.refreshCalls ≤ 1
  := by
  unfold refreshCalls at *
  by_cases after : t.refreshInFlight.isSome = true
  · rw [if_pos (shared after)] at single
    rw [if_pos after]
    omega
  · rw [if_neg after]
    omega

theorem refreshing_settle (r : ApiRequest) :
  r.settle.refreshing = false
  := by simp [ApiRequest.settle, ApiRequest.refreshing]

theorem refreshing_replay (r : ApiRequest) (T : ℕ) :
  (r.replay T).refreshing = false
  := by simp [ApiRequest.replay, ApiRequest.refreshing]

theorem refreshing_wait (r : ApiRequest) (n : ℕ) :
  (r.wait n).refreshing = false
  := by simp [ApiRequest.wait, ApiRequest.refreshing]

theorem refreshCalls_settle {s : Client} {i : ℕ} {r : ApiRequest} (single : s.refreshCalls ≤ 1)
    (hr : s.requests[i]? = some r) :
  (s.setRequest i r.settle).refreshCalls ≤ 1
  := by
  refine refreshCalls_of_le (s := s) ?_ ?_ single
  · exact fun h => h
  · change (s.requests.set i r.settle).countP _ ≤ _
    rw [countP_setRequest hr (refreshing_settle r)]
    exact Nat.sub_le _ _

/-- An expired token keeps the calls single exactly if it does not start a refresh beside the call
of `bootstrap`. -/
theorem refreshCalls_expired_iff {s t : Client} {i : ℕ} {r : ApiRequest}
    (single : s.refreshCalls ≤ 1) (hr : s.requests[i]? = some r) (cases_ : Expired s i r t) :
  t.refreshCalls ≤ 1 ↔ (s.StartsRefresh r → ∀ other ∈ s.requests, other.refreshing = false)
  := by
  cases cases_ with
  | settled auth =>
    apply iff_of_true
    · exact refreshCalls_settle single hr
    · intro starts
      exact absurd auth (Bool.eq_false_iff.mp starts.1)
  | replayed current api token newer =>
    apply iff_of_true
    · refine refreshCalls_of_le (s := s) ?_ ?_ single
      · exact fun h => h
      · exact Nat.le_of_eq (countP_setRequest_of_api hr api (refreshing_replay r current))
    · rintro ⟨-, none | same, -⟩
      · rw [none] at token
        cases token
      · exact absurd same newer
  | joined n api flight =>
    apply iff_of_true
    · refine refreshCalls_of_le (s := s) ?_ ?_ single
      · exact fun h => h
      · exact Nat.le_of_eq (countP_setRequest_of_api hr api (refreshing_wait r n))
    · intro starts
      rw [starts.2.2] at flight
      cases flight
  | started starts =>
    have own := countP_setRequest_of_api hr starts.1 (refreshing_wait r s.refreshes.length)
    unfold refreshCalls
    dsimp only
    rw [own, Option.isSome_some, if_pos rfl, imp_iff_right starts]
    constructor
    · intro single other hother
      have zero : s.requests.countP (·.refreshing) = 0 := by omega
      exact Bool.eq_false_iff.mpr (List.countP_eq_zero.mp zero other hother)
    · intro idle
      have zero : s.requests.countP (·.refreshing) = 0 := by
        rw [List.countP_eq_zero]
        intro other hother
        exact Bool.eq_false_iff.mp (idle other hother)
      omega

theorem refreshCalls_answer_iff {s t : Client} {i : ℕ} {reply : Reply}
    (single : s.refreshCalls ≤ 1) (hstep : s.answer i reply = some t) :
  t.refreshCalls ≤ 1 ↔ s.Exclusive (.answer i reply)
  := by
  unfold Client.answer at hstep
  simp only [Option.bind_eq_bind, Option.bind_eq_some_iff] at hstep
  obtain ⟨r, hr, hstep⟩ := hstep
  have settled := refreshCalls_settle single hr
  cases phase : r.phase with
  | calling =>
    rw [phase] at hstep
    cases reply with
    | ok T =>
      cases hstep
      apply iff_of_true _ trivial
      split_ifs
      · exact settled
      · exact settled
    | tokenExpired =>
      cases hstep
      rw [refreshCalls_expired_iff single hr (expired_cases s i r)]
      constructor
      · intro exclusive r' hr' _
        cases hr.symm.trans hr'
        exact exclusive
      · intro exclusive
        exact exclusive r hr phase
    | failed =>
      cases hstep
      exact iff_of_true settled trivial
  | replaying =>
    rw [phase] at hstep
    cases hstep
    apply iff_of_true settled
    cases reply with
    | ok _ => trivial
    | tokenExpired =>
      intro r' hr' calling
      cases hr.symm.trans hr'
      rw [phase] at calling
      cases calling
    | failed => trivial
  | waiting =>
    rw [phase] at hstep
    cases hstep
  | settled =>
    rw [phase] at hstep
    cases hstep

theorem refreshCalls_refreshed {s t : Client} {reply : Reply} (single : s.refreshCalls ≤ 1)
    (hstep : s.refreshed reply = some t) :
  t.refreshCalls ≤ 1
  := by
  unfold Client.refreshed at hstep
  simp only [Option.bind_eq_bind, Option.bind_eq_some_iff] at hstep
  obtain ⟨n, -, hstep⟩ := hstep
  split at hstep
  · rename_i T
    cases hstep
    apply refreshCalls_of_le (s := s) (fun h => absurd h (by simp)) _ single
    exact Nat.le_of_eq (refreshing_update n (fun r => refreshing_replay r T) s.requests)
  · cases hstep
    apply refreshCalls_of_le (s := s) (fun h => absurd h (by simp)) _ single
    exact Nat.le_of_eq (refreshing_update n refreshing_settle s.requests)

theorem refreshCalls_bootstrap_iff {s : Client} (h : Steady s) (single : s.refreshCalls ≤ 1) :
  s.bootstrap.refreshCalls ≤ 1 ↔ s.Exclusive .bootstrap
  := by
  unfold Client.bootstrap Exclusive
  split_ifs with done
  · apply iff_of_true single
    intro idle
    rw [done] at idle
    cases idle
  · have idle : s.bootstrapped = false := Bool.eq_false_iff.mpr done
    cases token : s.accessToken with
    | some T => exact iff_of_true single nofun
    | none =>
      have zero : s.requests.countP (·.refreshing) = 0 := by
        rw [List.countP_eq_zero]
        intro r hr refreshing
        have path := (Bool.and_eq_true_iff.mp refreshing).1
        exact h.bootstrap idle r hr (of_decide_eq_true path)
      unfold refreshCalls
      dsimp only
      rw [List.countP_append, zero]
      cases s.refreshInFlight with
      | none => exact iff_of_true (by decide) fun _ _ => rfl
      | some n => exact iff_of_false (by simp [ApiRequest.refreshing]) (by simp [idle])

theorem refreshCalls_step_iff {s t : Client} {a : ClientAction} (h : Steady s)
    (single : s.refreshCalls ≤ 1) (hstep : s.step a = some t) :
  t.refreshCalls ≤ 1 ↔ s.Exclusive a
  := by
  cases a with
  | bootstrap =>
    cases hstep
    exact refreshCalls_bootstrap_iff h single
  | request auth =>
    cases hstep
    apply iff_of_true _ trivial
    refine refreshCalls_of_le (s := s) ?_ ?_ single
    · exact fun h => h
    · rw [List.countP_append]
      cases auth
      · exact Nat.le_refl _
      · exact Nat.le_refl _
  | answer i reply => exact refreshCalls_answer_iff single hstep
  | refreshed reply => exact iff_of_true (refreshCalls_refreshed single hstep) trivial
  | loggedIn T =>
    cases hstep
    exact iff_of_true single trivial
  | loggedOut =>
    cases hstep
    exact iff_of_true single trivial

/-! ### Every run -/

theorem steady_init :
  Steady {}
  := ⟨fun _ => nofun, fun _ => ⟨nofun, nofun⟩, nofun, rfl⟩

/-- A request whose path is one of the authentication starts no refresh, whatever its answer. -/
theorem answer_of_isAuthPath {s t : Client} {i : ℕ} {reply : Reply} {r : ApiRequest}
    (hr : s.requests[i]? = some r) (auth : isAuthPath r.path = true)
    (hstep : s.answer i reply = some t) :
  t.refreshInFlight = s.refreshInFlight ∧ t.refreshes = s.refreshes
  := by
  unfold Client.answer at hstep
  rw [hr] at hstep
  simp only [Option.bind_eq_bind, Option.bind_some] at hstep
  split at hstep
  · cases hstep
    split_ifs
    · exact ⟨rfl, rfl⟩
    · exact ⟨rfl, rfl⟩
  · cases hstep
    unfold expired
    rw [if_pos auth]
    exact ⟨rfl, rfl⟩
  · cases hstep
    exact ⟨rfl, rfl⟩
  · cases hstep
    exact ⟨rfl, rfl⟩
  · cases hstep
  · cases hstep

/-- A request is replayed at most once, and if it has awaited a refresh that has succeeded, with the
token of that one; the end of the session is reported once for each shared refresh that has
failed. -/
structure Orderly (s : Client) : Prop where
  calls : ∀ r ∈ s.requests, r.calls ≤ 2
  replayed : ∀ r ∈ s.requests, ∀ n T, r.awaited = some n →
    s.refreshes[n]? = some (.succeeded T) → r.replayed = some T
  expirations : s.expirations = s.refreshes.countP (· = .failed)

theorem Steady.orderly {s : Client} (h : Steady s) :
  Orderly s
  where
  calls r hr := by
    rw [(h.requests r hr).calls]
    split_ifs
    · exact Nat.le_refl 2
    · exact Nat.le_succ 1
  replayed r hr n T awaited succeeded := by
    obtain ⟨flying, -⟩ | ⟨U, done, replayed⟩ | ⟨failed, -⟩ := (h.requests r hr).awaited n awaited
    · cases succeeded.symm.trans flying
    · cases succeeded.symm.trans done
      exact replayed
    · cases succeeded.symm.trans failed
  expirations := h.expirations

/-- The tab after a request has been sent. -/
def requesting : Client where
  requests := [{ path := .api, usedToken := none }]

end Client

end Lumina.Frontend
