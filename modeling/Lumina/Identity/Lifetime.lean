import Lumina.Identity.Browser

/-!
# How long a session lives

Every step of the browser and the service keeps `Sound`.  A session that has ended never comes back,
whatever has been on its way, and one that has not ended goes on until a second before its newest
cookie expires: `live_iff`.
-/

namespace Lumina.Identity.Browser

open Transition

variable {s t : State} {e : Exchange} {i : ℕ}

/-! ### The steps that requests share -/

theorem lt_secondsUntil (now moment : ℕ) :
  moment < now + secondsUntil now moment * second + second
  := by
  have parts : moment - now < (moment - now) / second * second + second :=
    Nat.lt_div_mul_add (by decide)
  have le : (moment - now) / second * second ≤ secondsUntil now moment * second :=
    Nat.mul_le_mul_right second (Nat.le_max_left ..)
  omega

theorem Keeps.refl : Keeps s s := ⟨rfl, rfl, rfl, Nat.le_refl _⟩

namespace State

theorem families_deny (s : State) (access : Access) (remaining : ℕ) :
  (s.deny access remaining).families = s.families
  := by
  unfold deny
  split
  all_goals rfl

theorem rotated_deny (s : State) (access : Access) (remaining : ℕ) :
  (s.deny access remaining).rotated = s.rotated
  := by
  unfold deny
  split
  all_goals rfl

end State

theorem Keeps.deny (access : Access) (remaining : ℕ) :
  Keeps s (s.deny access remaining)
  := by
  unfold State.deny
  split
  · exact ⟨rfl, rfl, rfl, Nat.le_refl _⟩
  · exact .refl

namespace Served

/-- The request goes on, or is refused. -/
theorem next {stage : Stage} (issues : ∀ cookie, stage.issues cookie = false)
    (closes : stage.closes = false)
    (passed : stage.passed = true → e.stage.passed = true ∨
      ∃ access, e.request.access? = some access ∧ expired s.now access.exp = false)
    (draft : stage.draft? = none) (covers : stage.Covers s.now) :
  Served s i e s stage
  := by
  refine quiet .refl rfl rfl ?_ closes passed ?_ covers
  · intro cookie is
    cases (issues cookie).symm.trans is
  · intro cookie is
    cases draft.symm.trans is

theorem mintAccess : Served s i e s.mintAccess.1 s.mintAccess.2 :=
  quiet ⟨rfl, rfl, rfl, Nat.le_succ _⟩ rfl rfl nofun rfl nofun nofun trivial

end Served

/-- A cookie that is signed now is newer than what has been handed out so far. -/
theorem Sound.served_mint (h : Sound s) (at_ : s.exchanges[i]? = some e) {f : FamilyId}
    (opened : e.request = .login → f = i)
    (renewed : ∀ presented, e.request.cookie? = some presented → f = presented.familyId)
    (access : Access) :
  Served s i e (s.mintRefresh f access).1 (s.mintRefresh f access).2
  := by
  have exp : expiryOf s.now refreshTtl / second * second ≤ expiryOf s.now refreshTtl :=
    Nat.div_mul_le_self ..
  refine .quiet ⟨rfl, rfl, rfl, Nat.le_succ _⟩ rfl rfl nofun rfl nofun ?_ exp
  intro cookie is
  cases is
  refine ⟨Nat.lt_succ_self _, exp, opened, ?_⟩
  intro presented sent
  have received := (h.exchanges i e at_).cookie presented sent
  refine ⟨renewed presented sent, h.jti presented received, ?_⟩
  exact (Nat.le_div_iff_mul_le (by decide)).mpr (h.exp presented received)

theorem Sound.served_time (h : Sound s) (at_ : s.exchanges[i]? = some e) {access : Access}
    {issued : Cookie} {expiresAt : ℕ} (timed : e.stage = .time access issued expiresAt) :
  Served s i e s (.store access issued (secondsUntil s.now expiresAt))
  := by
  have fits := h.exchanges i e at_
  refine .quiet .refl rfl rfl nofun rfl nofun ?_ ?_
  · intro cookie is
    apply fits.draft
    rw [timed]
    exact is
  · have covers := fits.covers
    rw [timed] at covers
    exact Nat.lt_of_le_of_lt covers (lt_secondsUntil s.now expiresAt)

theorem Sound.served_rotate (h : Sound s) (grace : ℕ) {bootstrap : Bool} {cookie issued : Cookie}
    {access : Access} {ttl : ℕ} (refresh : e.request = .refresh bootstrap (some cookie))
    (stored : e.stage = .store access issued ttl) :
  Served s i e (s.rotate grace cookie access issued ttl).1
    (s.rotate grace cookie access issued ttl).2
  := by
  have sent : e.request.cookie? = some cookie := by rw [refresh]; rfl
  have kind : e.request.refreshes = true := by rw [refresh]; rfl
  unfold State.rotate
  split
  · exact .next (fun _ => rfl) rfl nofun rfl trivial
  · case h_2 current found =>
    obtain ⟨expiresAt, entry, -⟩ := Expiring.get_eq_some_iff.mp found
    split
    · case isTrue same =>
      have renews : e.Renews s := Or.inr ⟨cookie, _, sent, entry, same⟩
      refine .issued ⟨rfl, rfl, rfl, Nat.le_refl _⟩ stored renews rfl ?_
      intro jti x is
      have is : (if 0 < grace then s.rotated.set cookie.jti issued (s.now + grace * second)
        else s.rotated) jti = some x := is
      split at is
      · by_cases this : jti = cookie.jti
        · rw [this, Expiring.set_self] at is
          cases is
          exact Or.inr rfl
        · rw [Expiring.set_of_ne _ this] at is
          exact Or.inl is
      · exact Or.inl is
    · split
      · case h_1 handedOut found =>
        obtain ⟨until_, entry, -⟩ := Expiring.get_eq_some_iff.mp found
        refine .quiet .refl rfl rfl ?_ rfl nofun nofun trivial
        intro c is
        rw [← of_decide_eq_true is]
        exact h.rotated cookie.jti _ entry
      · exact .closed ⟨rfl, rfl, rfl, Nat.le_refl _⟩ sent rfl rfl rfl nofun (Or.inr kind)

/-! ### The steps of each request -/

theorem Sound.served_login (h : Sound s) (at_ : s.exchanges[i]? = some e)
    (login : e.request = .login) {stage : Stage}
    (step : s.loginStep i e.stage = some (t, stage)) :
  Served s i e t stage
  := by
  unfold State.loginStep at step
  split at step
  all_goals cases step
  · exact .next (fun _ => rfl) rfl nofun rfl trivial
  · exact .mintAccess
  · refine h.served_mint at_ (fun _ => rfl) ?_ _
    rw [login]
    nofun
  · case h_4 timed => exact h.served_time at_ timed
  · case h_5 access issued ttl stored =>
    have fits := h.exchanges i e at_
    refine .issued ⟨rfl, rfl, rfl, Nat.le_refl _⟩ stored (Or.inl login) ?_ fun _ _ => Or.inl
    rfl

theorem Sound.served_refresh (h : Sound s) (at_ : s.exchanges[i]? = some e) {grace : ℕ}
    {bootstrap : Bool} {cookie : Cookie} (refresh : e.request = .refresh bootstrap (some cookie))
    {stage : Stage} (step : s.refreshStep grace cookie e.stage = some (t, stage)) :
  Served s i e t stage
  := by
  have sent : e.request.cookie? = some cookie := by rw [refresh]; rfl
  have kind : e.request.refreshes = true := by rw [refresh]; rfl
  unfold State.refreshStep at step
  split at step
  · split at step
    all_goals
      cases step
      exact .next (fun _ => rfl) rfl nofun rfl trivial
  · split at step
    all_goals
      cases step
      exact .next (fun _ => rfl) rfl nofun rfl trivial
  · cases step
    exact .next (fun _ => rfl) rfl nofun rfl trivial
  · cases step
    exact .closed ⟨rfl, rfl, rfl, Nat.le_refl _⟩ sent rfl rfl rfl nofun (Or.inr kind)
  · cases step
    exact .mintAccess
  · cases step
    refine h.served_mint at_ ?_ ?_ _
    · intro login
      cases refresh.symm.trans login
    · intro presented is
      rw [Option.some.inj (is.symm.trans sent)]
  · case h_7 timed =>
    cases step
    exact h.served_time at_ timed
  · case h_8 stored =>
    obtain ⟨rfl, rfl⟩ := Prod.ext_iff.mp (Option.some.inj step)
    exact h.served_rotate grace refresh stored
  · cases step

theorem served_logout {access : Access} {cookie : Option Cookie}
    (logout : e.request = .logout (some access) cookie) {stage : Stage}
    (step : s.logoutStep access cookie e.stage = some (t, stage)) :
  Served s i e t stage
  := by
  unfold State.logoutStep at step
  split at step
  · split at step
    · cases step
      exact .next (fun _ => rfl) rfl nofun rfl trivial
    · case isFalse young =>
      cases step
      refine .next (fun _ => rfl) rfl (fun _ => Or.inr ⟨access, ?_, ?_⟩) rfl trivial
      · rw [logout]
        rfl
      · exact Bool.eq_false_iff.mpr young
  · case h_2 here =>
    split at step
    · cases step
      exact .next (fun _ => rfl) rfl nofun rfl trivial
    · cases step
      exact .next (fun _ => rfl) rfl (fun _ => Or.inl (by rw [here]; rfl)) rfl trivial
  · case h_3 here =>
    cases step
    exact .next (fun _ => rfl) rfl (fun _ => Or.inl (by rw [here]; rfl)) rfl trivial
  · case h_4 remaining here =>
    cases step
    have passed : e.stage.passed = true := by rw [here]; rfl
    split
    all_goals
      exact .quiet (.deny access remaining) (s.families_deny access remaining)
        (s.rotated_deny access remaining) nofun rfl (fun _ => Or.inl passed) nofun trivial
  · case h_5 here =>
    have passed : e.stage.passed = true := by rw [here]; rfl
    obtain ⟨c, -, step⟩ := Option.map_eq_some_iff.mp step
    cases step
    split
    · exact .next (fun _ => rfl) rfl (fun _ => Or.inl passed) rfl trivial
    · exact .next (fun _ => rfl) rfl (fun _ => Or.inl passed) rfl trivial
  · case h_6 here =>
    have passed : e.stage.passed = true := by rw [here]; rfl
    obtain ⟨c, sent, step⟩ := Option.map_eq_some_iff.mp step
    cases step
    refine .closed ⟨rfl, rfl, rfl, Nat.le_refl _⟩ ?_ rfl rfl rfl (fun _ => passed) (Or.inl rfl)
    rw [logout]
    exact sent
  · cases step

/-- A request of which a step is served, or that is refused, has not been answered. -/
theorem pending_of_serve {grace : ℕ} {stage : Stage}
    (step : s.serve grace i e.request e.stage = some (t, stage)) :
  e.stage.Pending
  := by
  intro reply answered
  rw [answered] at step
  unfold State.serve at step
  split at step
  · cases step
  · cases step
  · cases step
  · case h_4 sent => cases sent
  · case h_5 sent => cases sent
  · cases step

theorem Sound.served_serve (h : Sound s) (at_ : s.exchanges[i]? = some e) {grace : ℕ}
    {stage : Stage} (step : s.serve grace i e.request e.stage = some (t, stage)) :
  Served s i e t stage
  := by
  unfold State.serve at step
  split at step
  · case h_1 login => exact h.served_login at_ login step
  · case h_2 refresh => exact h.served_refresh at_ refresh step
  · case h_3 logout => exact served_logout logout step
  · cases step
    exact .next (fun _ => rfl) rfl nofun rfl trivial
  · cases step
    exact .next (fun _ => rfl) rfl nofun rfl trivial
  · cases step

theorem served_refuse {stage : Stage} (step : s.refuse e.stage = some (t, stage)) :
  e.stage.Pending ∧ Served s i e t stage
  := by
  unfold State.refuse at step
  split at step
  · cases step
  · case h_2 pending =>
    cases step
    exact ⟨pending, .next (fun _ => rfl) rfl nofun rfl trivial⟩

theorem served_outdate {stage : Stage} (step : s.outdate e.stage = some (t, stage)) :
  e.stage.Pending ∧ Served s i e t stage
  := by
  unfold State.outdate at step
  split at step
  · case h_1 here =>
    cases step
    refine ⟨?_, .next (fun _ => rfl) rfl nofun rfl trivial⟩
    intro reply answered
    cases here.symm.trans answered
  · cases step

/-! ### The steps of the browser -/

/-- The exchange is no longer awaited. -/
def Exchange.settled (e : Exchange) : Exchange := { e with awaited := false }

/-- The requests and their stages are as they were. -/
def Alike (s t : State) : Prop :=
  t.exchanges.map Exchange.settled = s.exchanges.map Exchange.settled

theorem State.Fits.of_settled {e' : Exchange} (h : s.Fits i e) (eq : e.settled = e'.settled) :
  s.Fits i e'
  := by
  have fits : s.Fits i e.settled := ⟨h.cookie, h.sentAt, h.passed, h.draft, h.covers, h.closes⟩
  rw [eq] at fits
  exact ⟨fits.cookie, fits.sentAt, fits.passed, fits.draft, fits.covers, fits.closes⟩

namespace Alike

theorem any_iff (alike : Alike s t) {p : Exchange → Bool} (forget : ∀ e, p e.settled = p e) :
  t.exchanges.any p = true ↔ s.exchanges.any p = true
  := by
  have settled : ∀ rows : List Exchange, (rows.map Exchange.settled).any p = rows.any p := by
    intro rows
    rw [List.any_map]
    congr 1
    funext e
    apply forget
  rw [← settled t.exchanges, alike, settled]

theorem at_ (alike : Alike s t) {j : ℕ} {x : Exchange} (found : s.exchanges[j]? = some x) :
  ∃ y, t.exchanges[j]? = some y ∧ y.settled = x.settled
  := by
  have found : (s.exchanges.map Exchange.settled)[j]? = some x.settled := by
    rw [List.getElem?_map, found]
    rfl
  rw [← alike, List.getElem?_map, Option.map_eq_some_iff] at found
  exact found

theorem opened (alike : Alike s t) {f : FamilyId} (h : s.Opened f) :
  t.Opened f
  := by
  obtain ⟨x, found, login, answered⟩ := h
  obtain ⟨y, found, eq⟩ := alike.at_ found
  refine ⟨y, found, ?_, ?_⟩
  · show y.settled.request = .login
    rw [eq]
    exact login
  · show ¬ y.settled.stage.Pending
    rw [eq]
    exact answered

end Alike

/-- The tabs have got an answer, have given up or have been loaded anew. -/
theorem Sound.alike (h : Sound s) (alike : Alike s t) (now : s.now ≤ t.now)
    (fresh : s.fresh ≤ t.fresh) (families : t.families = s.families)
    (rotated : t.rotated = s.rotated) (jar : ∀ cookie, t.jar = some cookie → s.Issued cookie) :
  Sound t
  := by
  refine h.keep now fresh families rotated ?_ ?_ (fun _ => alike.opened) jar ?_
  · exact fun cookie => alike.any_iff fun _ => rfl
  · exact fun f => alike.any_iff fun _ => rfl
  · intro j y found
    left
    obtain ⟨x, found, eq⟩ := Alike.at_ (Eq.symm alike) found
    exact (h.exchanges j x found).of_settled eq

theorem Sound.send (h : Sound s) {e : Exchange} (sent : e.stage = .sent) (now : e.sentAt = s.now)
    (cookie : ∀ cookie, e.request.cookie? = some cookie → s.jar = some cookie) :
  Sound (s.send e)
  := by
  refine h.keep (Nat.le_refl _) (Nat.le_refl _) rfl rfl ?_ ?_ ?_ h.jar ?_
  · intro c
    show (s.exchanges ++ [e]).any _ = true ↔ _
    rw [List.any_append, List.any_cons, List.any_nil, Bool.or_false, sent]
    show (_ || false) = true ↔ _
    rw [Bool.or_false]
    rfl
  · intro f
    show (s.exchanges ++ [e]).any _ = true ↔ _
    rw [List.any_append, List.any_cons, List.any_nil, Bool.or_false]
    have ends : e.ends f = false := by
      unfold Exchange.ends
      rw [sent]
      rfl
    rw [ends, Bool.or_false]
    rfl
  · rintro f ⟨x, found, rest⟩
    refine ⟨x, ?_, rest⟩
    show (s.exchanges ++ [e])[f]? = some x
    rw [List.getElem?_append_left (List.getElem?_eq_some_iff.mp found).1]
    exact found
  · intro j x found
    obtain old | ⟨-, rfl⟩ := Table.of_getElem?_concat found
    · exact Or.inl (h.exchanges j x old)
    · left
      refine ⟨fun c is => h.jar c (cookie c is), Nat.le_of_eq now, ?_, ?_, ?_, ?_⟩
      all_goals rw [sent]
      · nofun
      · nofun
      · trivial
      · nofun

theorem State.of_advance {f : Request → Stage → Option (State × Stage)} {u : State}
    (step : s.advance i f = some u) :
  ∃ e t stage, s.exchanges[i]? = some e ∧ f e.request e.stage = some (t, stage) ∧
    u = t.put i { e with stage }
  := by
  unfold advance at step
  obtain ⟨e, found, step⟩ := Option.bind_eq_some_iff.mp step
  obtain ⟨⟨t, stage⟩, served, step⟩ := Option.bind_eq_some_iff.mp step
  exact ⟨e, t, stage, found, served, (Option.some.inj step).symm⟩

theorem State.of_settle {f : Exchange → Option State} {u : State}
    (step : s.settle i f = some u) :
  ∃ e t, s.exchanges[i]? = some e ∧ e.awaited = true ∧ f e = some t ∧ u = t.put i e.settled
  := by
  unfold settle at step
  obtain ⟨e, found, step⟩ := Option.bind_eq_some_iff.mp step
  split at step
  · case isTrue awaited =>
    obtain ⟨t, ended, step⟩ := Option.bind_eq_some_iff.mp step
    exact ⟨e, t, found, awaited, ended, (Option.some.inj step).symm⟩
  · cases step

/-- What the tab does with an answer concerns its token only. -/
theorem State.conclude_eq (s : State) (e : Exchange) (reply : Option Reply) :
  ∃ accessToken, s.conclude e reply = { s with accessToken }
  := by
  unfold conclude
  split
  · exact ⟨_, rfl⟩
  · exact ⟨_, rfl⟩
  · exact ⟨_, rfl⟩
  · exact ⟨s.accessToken, rfl⟩

/-- The jar holds the cookie of the answer afterwards, or what it has held, or nothing. -/
theorem State.receive_eq (s : State) (reply : Reply) :
  ∃ jar, s.receive reply = { s with jar } ∧
    ∀ cookie, jar = some cookie →
      s.jar = some cookie ∨ (Stage.answered reply).issues cookie = true
  := by
  cases reply with
  | tokens access issued =>
    exact ⟨some issued, rfl, fun cookie is => Or.inr (decide_eq_true (Option.some.inj is))⟩
  | loggedOut closed => exact ⟨none, rfl, nofun⟩
  | refused why => exact ⟨s.jar, rfl, fun cookie => Or.inl⟩

theorem alike_set {rows : List Exchange} (found : rows[i]? = some e) :
  (rows.set i e.settled).map Exchange.settled = rows.map Exchange.settled
  := by
  have below := (List.getElem?_eq_some_iff.mp found).1
  apply List.ext_getElem?
  intro j
  rw [List.getElem?_map, List.getElem?_map]
  by_cases here : i = j
  · rw [← here, List.getElem?_set_self below, found]
    rfl
  · rw [List.getElem?_set_ne here]

/-- What a step of the machine is. -/
inductive Stepped (s : State) : State → Prop
  /-- Time passes, or a tab has got an answer, has given up or has been loaded anew. -/
  | alike {t : State} (alike : Alike s t) (now : s.now ≤ t.now) (fresh : t.fresh = s.fresh)
      (families : t.families = s.families) (rotated : t.rotated = s.rotated)
      (jar : ∀ cookie, t.jar = some cookie → s.Issued cookie) : Stepped s t
  | sent {e : Exchange} (sent : e.stage = .sent) (now : e.sentAt = s.now)
      (cookie : ∀ cookie, e.request.cookie? = some cookie → s.jar = some cookie) :
      Stepped s (s.send e)
  | served {t : State} {i : ℕ} {e : Exchange} {stage : Stage} (found : s.exchanges[i]? = some e)
      (pending : e.stage.Pending) (served : Served s i e t stage) :
      Stepped s (t.put i { e with stage })

theorem Stepped.settle (found : s.exchanges[i]? = some e) {jar : Option Cookie}
    (received : ∀ cookie, jar = some cookie → s.Issued cookie) (reply : Option Reply) :
  Stepped s (({ s with jar }.conclude e reply).put i e.settled)
  := by
  obtain ⟨accessToken, eq⟩ := State.conclude_eq { s with jar } e reply
  rw [eq]
  exact .alike (alike_set found) (Nat.le_refl _) rfl rfl rfl received

theorem Sound.stepped (h : Sound s) {grace : ℕ} {a : Action} (step : step grace a s = some t) :
  Stepped s t
  := by
  cases a with
  | tick microseconds =>
    cases step
    exact .alike rfl (Nat.le_add_right ..) rfl rfl rfl h.jar
  | login tab =>
    cases step
    exact .sent rfl rfl nofun
  | bootstrap tab =>
    dsimp only [Browser.step] at step
    split at step
    · cases step
      exact .sent rfl rfl fun _ => id
    · cases step
  | refresh tab =>
    cases step
    exact .sent rfl rfl fun _ => id
  | logout tab =>
    cases step
    exact .sent rfl rfl fun _ => id
  | serve i =>
    obtain ⟨e, u, stage, found, served, rfl⟩ := State.of_advance step
    exact .served found (pending_of_serve served) (h.served_serve found served)
  | refuse i =>
    obtain ⟨e, u, stage, found, refused, rfl⟩ := State.of_advance (f := fun _ => s.refuse) step
    obtain ⟨pending, served⟩ := served_refuse refused
    exact .served found pending served
  | outdate i =>
    obtain ⟨e, u, stage, found, outdated, rfl⟩ := State.of_advance (f := fun _ => s.outdate) step
    obtain ⟨pending, served⟩ := served_outdate outdated
    exact .served found pending served
  | deliver i whole =>
    obtain ⟨e, u, found, -, delivered, rfl⟩ := State.of_settle step
    split at delivered
    · case h_1 reply answered =>
      cases delivered
      obtain ⟨jar, eq, received⟩ := s.receive_eq reply
      rw [eq]
      apply Stepped.settle found
      intro cookie is
      obtain before | issues := received cookie is
      · exact h.jar cookie before
      · apply List.any_eq_true.mpr
        refine ⟨e, List.mem_of_getElem? found, ?_⟩
        rw [answered]
        exact issues
    · cases delivered
  | lose i =>
    obtain ⟨e, u, found, -, lost, rfl⟩ := State.of_settle step
    cases lost
    exact .settle found h.jar none
  | reload tab =>
    cases step
    refine .alike ?_ (Nat.le_refl _) rfl rfl rfl h.jar
    apply Table.map_update
    exact fun _ => rfl

theorem Sound.step (h : Sound s) (stepped : Stepped s t) :
  Sound t
  := by
  cases stepped with
  | alike alike now fresh families rotated jar =>
    exact h.alike alike now (Nat.le_of_eq fresh.symm) families rotated jar
  | sent sent now cookie => exact h.send sent now cookie
  | served found pending served => exact h.served found pending served

theorem Sound.initial : Sound {} where
  exchanges := nofun
  jar := nofun
  rotated := nofun
  opened := nofun
  jti := nofun
  exp := nofun
  mono := nofun
  families := nofun
  closed := nofun

theorem sound_of_run {grace : ℕ} {h : List (State × Action)} (run : (machine grace).Run h s) :
  Sound s
  := by
  apply run.invariant
  · rintro s rfl
    exact Sound.initial
  · intro a s t sound step
    exact sound.step (sound.stepped step)

/-! ### How long a session lives -/

theorem Served.keeps {stage : Stage} (served : Served s i e t stage) :
  Keeps s t
  := by
  cases served
  all_goals assumption

/-- A session that has ended has ended for good. -/
theorem Stepped.ended (stepped : Stepped s t) {f : FamilyId} (ended : s.Ended f) :
  t.Ended f
  := by
  cases stepped with
  | alike alike => exact (alike.any_iff fun _ => rfl).mpr ended
  | @sent e =>
    show (s.exchanges ++ [e]).any _ = true
    rw [List.any_append, Bool.or_eq_true]
    exact Or.inl ended
  | served found pending served =>
    exact (State.ended_put found pending served.keeps.exchanges f).mpr (Or.inl ended)

theorem Sound.not_live_of_ended (h : Sound s) {f : FamilyId} (ended : s.Ended f) :
  ¬ s.Live f
  := by
  obtain ⟨cookie, issued, rfl⟩ := h.issued_of_ended ended
  have gone := (h.closed cookie issued).mpr ended
  exact not_not.mpr (Expiring.get_eq_none_of_none gone s.now)

theorem Sound.live_of_not_ended (h : Sound s) {cookie : Cookie} (issued : s.Issued cookie)
    (young : s.now + second ≤ cookie.exp * second) (going : ¬ s.Ended cookie.familyId) :
  s.Live cookie.familyId
  := by
  cases found : s.families cookie.familyId with
  | none => exact absurd ((h.closed cookie issued).mp found) going
  | some x =>
    have covers := (h.families _ x found).covers cookie issued rfl
    have there : s.families.get s.now cookie.familyId = some x.value := by
      rw [Expiring.get_eq_some_iff]
      exact ⟨x.expiresAt, found, by omega⟩
    unfold State.Live
    rw [there]
    nofun

/-- Until a second before a cookie of it expires, a session can be renewed exactly if no exchange
has ended it: if no logout with one of its cookies has been accepted, no cookie of it has been
replayed and no refresh has found another token version.  Once it has ended, it never comes
back. -/
theorem live_iff {grace : ℕ} {h : List (State × Action)} (run : (machine grace).Run h s) :
  (∀ cookie, s.Issued cookie → s.now + second ≤ cookie.exp * second →
    (s.Live cookie.familyId ↔ ¬ s.Ended cookie.familyId)) ∧
  ∀ u ∈ Machine.states h s, ∀ f, u.Ended f → ¬ s.Live f
  := by
  have sound := sound_of_run run
  constructor
  · intro cookie issued young
    exact ⟨fun live ended => sound.not_live_of_ended ended live,
      sound.live_of_not_ended issued young⟩
  · intro u before f ended
    apply sound.not_live_of_ended
    have later := run.forall_later (I := Sound) (G := fun _ _ => True)
      (R := fun u s => u.Ended f → s.Ended f)
    refine later ?_ ?_ (fun _ => id) ?_ (fun _ _ => trivial) u before ended
    · rintro s rfl
      exact Sound.initial
    · exact fun a s t sound _ step => sound.step (sound.stepped step)
    · exact fun a u s t sound _ kept step ended => (sound.stepped step).ended (kept ended)

/-- A login, and a logout that is accepted. -/
def loginAndLogout : List Action :=
  .login 0 :: List.replicate 5 (.serve 0) ++ .deliver 0 true :: .logout 0 ::
    List.replicate 6 (.serve 1)

theorem live_iff_sample :
  ∃ h s, (machine 10).Run h s ∧ s.Issued ⟨0, 1, refreshTtl⟩ ∧ ¬ s.Live 0
  := by
  obtain ⟨h, s, run, checked⟩ := Machine.exists_run_of_exec (M := machine 10) loginAndLogout
    (fun s => s.exchanges.any (·.stage.issues ⟨0, 1, refreshTtl⟩) && s.now = 0 &&
      s.exchanges.any (·.ends 0)) rfl (by decide)
  rw [Bool.and_eq_true, Bool.and_eq_true, decide_eq_true_eq] at checked
  obtain ⟨⟨issued, now⟩, ended⟩ := checked
  have young : s.now + second ≤ refreshTtl * second := by
    rw [now]
    decide
  refine ⟨h, s, run, issued, ?_⟩
  exact fun live => ((live_iff run).1 ⟨0, 1, refreshTtl⟩ issued young).mp live ended

end Lumina.Identity.Browser
