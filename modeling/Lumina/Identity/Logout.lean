import Lumina.Identity.Lifetime

/-!
# What a logout leaves behind

A logout is refused if its access token has expired, and the tab logs out all the same.  Then the
session goes on, and a page that is loaded afterwards is logged in again: `logout_exact`.
-/

namespace Lumina.Identity.Browser

open Transition

variable {s t : State} {e : Exchange} {i : ℕ}

/-! ### A page that is loaded anew -/

/-- The page is loaded anew in the tab, its bootstrap is served in so many steps, and the answer
arrives. -/
def visit (tab n served : ℕ) : List Action :=
  .reload tab :: .bootstrap tab :: (List.replicate served (.serve n) ++ [.deliver n true])

/-- The user is logged in again as soon as the page is loaded anew. -/
def State.Resumes (s : State) (grace tab : ℕ) : Prop :=
  ∃ served, ((machine grace).exec (visit tab s.exchanges.length served) s).any
    (fun t => (t.accessToken tab).isSome) = true

/-- The bootstrap is at a stage, and nothing else has happened. -/
structure Loading (s : State) (tab n : ℕ) (cookie : Cookie) (stage : Stage) (t : State) : Prop where
  now : t.now = s.now
  families : t.families = s.families
  exchange : t.exchanges[n]? =
    some { tab, request := .refresh true (some cookie), sentAt := s.now, stage }
  token : t.accessToken tab = none

namespace Loading

variable {tab n grace : ℕ} {cookie : Cookie} {stage stage' : Stage} {u : State}

theorem step_eq (h : Loading s tab n cookie stage t) :
  (machine grace).step (.serve n) t = (t.refreshStep grace cookie stage).map fun (u, stage') =>
    u.put n { tab, request := .refresh true (some cookie), sentAt := s.now, stage := stage' }
  := by
  show t.advance n (t.serve grace n) = _
  unfold State.advance
  rw [h.exchange]
  show (t.refreshStep grace cookie stage).bind _ = _
  cases t.refreshStep grace cookie stage
  all_goals rfl

/-- The step that the service takes. -/
theorem step (h : Loading s tab n cookie stage t)
    (served : t.refreshStep grace cookie stage = some (u, stage')) :
  (machine grace).step (.serve n) t = some
    (u.put n { tab, request := .refresh true (some cookie), sentAt := s.now, stage := stage' })
  := by
  rw [h.step_eq, served]
  rfl

/-- A step that keeps the families. -/
theorem next (h : Loading s tab n cookie stage t) (now : u.now = t.now)
    (families : u.families = t.families) (exchanges : u.exchanges = t.exchanges)
    (token : u.accessToken = t.accessToken) (stage' : Stage) :
  Loading s tab n cookie stage'
    (u.put n { tab, request := .refresh true (some cookie), sentAt := s.now, stage := stage' })
  where
  now := now.trans h.now
  families := families.trans h.families
  exchange := by
    show (u.exchanges.set n _)[n]? = _
    rw [exchanges]
    exact List.getElem?_set_self (List.getElem?_eq_some_iff.mp h.exchange).1
  token := (congrFun token tab).trans h.token

end Loading

/-- What is sent when the page is loaded anew. -/
theorem loading_of_load (s : State) (tab : ℕ) {cookie : Cookie} (jar : s.jar = some cookie)
    (grace : ℕ) :
  ∃ t, Loading s tab s.exchanges.length cookie .sent t ∧
    ∀ rest, (machine grace).exec (.reload tab :: .bootstrap tab :: rest) s =
      (machine grace).exec rest t
  := by
  have length : (s.reload tab).exchanges.length = s.exchanges.length := List.length_map _
  have empty : (s.reload tab).accessToken tab = none := Function.update_self ..
  refine ⟨(s.reload tab).send { tab, request := .refresh true s.jar, sentAt := s.now }, ?_, ?_⟩
  · refine ⟨rfl, rfl, ?_, empty⟩
    show ((s.reload tab).exchanges ++ [_])[s.exchanges.length]? = _
    rw [← length, List.getElem?_concat_length, jar]
  · intro rest
    have bootstrap : (machine grace).step (.bootstrap tab) (s.reload tab) = some
        ((s.reload tab).send { tab, request := .refresh true s.jar, sentAt := s.now }) :=
      if_pos empty
    have reload : (machine grace).step (.reload tab) s = some (s.reload tab) := rfl
    rw [Machine.exec_cons, reload, Option.bind_some, Machine.exec_cons, bootstrap,
      Option.bind_some]

section

variable {tab n grace : ℕ} {cookie : Cookie} {u : State}

/-! ### A session that goes on -/

/-- The bootstrap will be answered with tokens. -/
def Welcome (s : State) (grace tab n : ℕ) (cookie : Cookie) (t : State) : Prop :=
  ∃ served u access issued,
    (machine grace).exec (List.replicate served (.serve n)) t = some u ∧
    u.exchanges[n]? = some
      { tab
        request := .refresh true (some cookie)
        sentAt := s.now
        stage := .answered (.tokens access issued) }

namespace Welcome

theorem of_step (step : (machine grace).step (.serve n) t = some u)
    (h : Welcome s grace tab n cookie u) :
  Welcome s grace tab n cookie t
  := by
  obtain ⟨served, v, access, issued, exec, answered⟩ := h
  refine ⟨served + 1, v, access, issued, ?_, answered⟩
  rw [List.replicate_succ, Machine.exec_cons, step]
  exact exec

/-- A step of the service that keeps the families. -/
theorem of_next {stage stage' : Stage} (h : Loading s tab n cookie stage t)
    (served : t.refreshStep grace cookie stage = some (u, stage')) (now : u.now = t.now)
    (families : u.families = t.families) (exchanges : u.exchanges = t.exchanges)
    (token : u.accessToken = t.accessToken)
    (rest : ∀ v, Loading s tab n cookie stage' v → Welcome s grace tab n cookie v) :
  Welcome s grace tab n cookie t
  := by
  apply of_step (h.step served)
  apply rest
  exact h.next now families exchanges token stage'

theorem of_store {access : Access} {issued : Cookie} {ttl : ℕ}
    (current : s.families.get s.now cookie.familyId = some cookie.jti)
    (h : Loading s tab n cookie (.store access issued ttl) t) :
  Welcome s grace tab n cookie t
  := by
  have found : t.families.get t.now cookie.familyId = some cookie.jti := by
    rw [h.now, h.families]
    exact current
  obtain ⟨u, rotated, exchanges⟩ : ∃ u, t.rotate grace cookie access issued ttl =
      (u, .answered (.tokens access issued)) ∧ u.exchanges = t.exchanges := by
    unfold State.rotate
    rw [found]
    dsimp only
    rw [if_pos rfl]
    exact ⟨_, rfl, rfl⟩
  have served : t.refreshStep grace cookie (.store access issued ttl) =
      some (u, .answered (.tokens access issued)) := congrArg some rotated
  refine of_step (h.step served) ⟨0, _, access, issued, rfl, ?_⟩
  show (u.exchanges.set n _)[n]? = _
  rw [exchanges]
  exact List.getElem?_set_self (List.getElem?_eq_some_iff.mp h.exchange).1

/-- From the transaction on, the family is not looked at before the script. -/
theorem of_account (current : s.families.get s.now cookie.familyId = some cookie.jti)
    (h : Loading s tab n cookie .account t) :
  Welcome s grace tab n cookie t
  := by
  refine of_next h rfl rfl rfl rfl rfl fun t h => ?_
  refine of_next h rfl rfl rfl rfl rfl fun t h => ?_
  refine of_next h rfl rfl rfl rfl rfl fun t h => ?_
  exact of_next h rfl rfl rfl rfl rfl fun t => of_store current

theorem of_sent (young : expired s.now cookie.exp = false)
    (current : s.families.get s.now cookie.familyId = some cookie.jti)
    (h : Loading s tab n cookie .sent t) :
  Welcome s grace tab n cookie t
  := by
  have decoded : t.refreshStep grace cookie .sent = some (t, .family) := by
    show (if expired t.now cookie.exp then _ else _) = _
    rw [h.now, young]
    rfl
  refine of_next h decoded rfl rfl rfl rfl fun t h => ?_
  have found : t.refreshStep grace cookie .family = some (t, .account) := by
    unfold State.refreshStep
    rw [h.now, h.families, current]
  exact of_next h found rfl rfl rfl rfl fun t => of_account current

end Welcome

/-- An answer with tokens logs the tab in. -/
theorem loggedIn_of_answer {access : Access} {issued : Cookie}
    (answered : t.exchanges[n]? = some
      { tab
        request := .refresh true (some cookie)
        sentAt := s.now
        stage := .answered (.tokens access issued) }) :
  ((machine grace).step (.deliver n true) t).any (fun t => (t.accessToken tab).isSome) = true
  := by
  show (t.settle n _).any _ = true
  unfold State.settle
  rw [answered]
  show (Function.update t.accessToken tab (some access) tab).isSome = true
  rw [Function.update_self]
  rfl

/-! ### A session that has ended -/

/-- The bootstrap has not got beyond the check of its cookie. -/
def Unwelcome (s : State) (tab n : ℕ) (cookie : Cookie) (t : State) : Prop :=
  ∃ stage, Loading s tab n cookie stage t ∧
    (stage = .sent ∨ stage = .family ∨ ∃ why, stage = .answered (.refused why))

namespace Unwelcome

theorem serve (h : Unwelcome s tab n cookie t)
    (gone : s.families.get s.now cookie.familyId = none)
    (step : (machine grace).step (.serve n) t = some u) :
  Unwelcome s tab n cookie u
  := by
  obtain ⟨stage, loading, stages⟩ := h
  rw [loading.step_eq] at step
  obtain ⟨⟨v, stage'⟩, served, rfl⟩ := Option.map_eq_some_iff.mp step
  obtain rfl | rfl | ⟨why, rfl⟩ := stages
  · dsimp only [State.refreshStep] at served
    split at served
    · cases served
      exact ⟨_, loading.next rfl rfl rfl rfl _, Or.inr (Or.inr ⟨_, rfl⟩)⟩
    · cases served
      exact ⟨_, loading.next rfl rfl rfl rfl _, Or.inr (Or.inl rfl)⟩
  · dsimp only [State.refreshStep] at served
    rw [loading.now, loading.families, gone] at served
    cases served
    exact ⟨_, loading.next rfl rfl rfl rfl _, Or.inr (Or.inr ⟨_, rfl⟩)⟩
  · cases served

theorem exec (h : Unwelcome s tab n cookie t)
    (gone : s.families.get s.now cookie.familyId = none) {served : ℕ}
    (exec : (machine grace).exec (List.replicate served (.serve n)) t = some u) :
  Unwelcome s tab n cookie u
  := by
  induction served generalizing t with
  | zero =>
    cases exec
    exact h
  | succ served ih =>
    obtain ⟨v, step, rest⟩ := (machine grace).exec_cons_eq_some exec
    exact ih (h.serve gone step) rest

/-- A refusal leaves the tab without a token. -/
theorem deliver (h : Unwelcome s tab n cookie t)
    (step : (machine grace).step (.deliver n true) t = some u) :
  u.accessToken tab = none
  := by
  obtain ⟨stage, loading, stages⟩ := h
  obtain ⟨e, v, found, -, delivered, rfl⟩ := State.of_settle step
  cases loading.exchange.symm.trans found
  obtain rfl | rfl | ⟨why, rfl⟩ := stages
  · cases delivered
  · cases delivered
  · cases delivered
    exact loading.token

end Unwelcome

end

/-- A page that is loaded anew is logged in again exactly if the session of the newest cookie can be
renewed. -/
theorem Sound.resumes_iff (h : Sound s) {cookie : Cookie} (jar : s.jar = some cookie)
    (newest : ∀ c, s.Issued c → c.familyId = cookie.familyId → c.jti ≤ cookie.jti)
    (young : expired s.now cookie.exp = false) (grace tab : ℕ) :
  s.Resumes grace tab ↔ s.Live cookie.familyId
  := by
  obtain ⟨t, loading, load⟩ := loading_of_load s tab jar grace
  constructor
  · rintro ⟨served, resumed⟩ gone
    obtain ⟨u, exec, token⟩ := (Option.any_eq_true _ _).mp resumed
    unfold visit at exec
    rw [load] at exec
    obtain ⟨v, exec, delivered⟩ := (machine grace).exec_append_eq_some exec
    rw [Machine.exec_singleton] at delivered
    have unwelcome : Unwelcome s tab s.exchanges.length cookie v :=
      Unwelcome.exec ⟨_, loading, Or.inl rfl⟩ gone exec
    rw [unwelcome.deliver delivered] at token
    cases token
  · intro live
    obtain ⟨current, found⟩ := Option.ne_none_iff_exists'.mp live
    obtain ⟨expiresAt, entry, -⟩ := Expiring.get_eq_some_iff.mp found
    have holds := h.families cookie.familyId _ entry
    have same : current = cookie.jti := by
      obtain ⟨c, issued, family, is⟩ := holds.issued
      have le : current ≤ cookie.jti := by
        rw [← show c.jti = current from is]
        exact newest c issued family
      exact Nat.le_antisymm le (holds.newest cookie (h.jar cookie jar) rfl)
    rw [same] at found
    have welcome : Welcome s grace tab s.exchanges.length cookie t :=
      Welcome.of_sent young found loading
    obtain ⟨served, u, access, issued, exec, answered⟩ := welcome
    refine ⟨served, ?_⟩
    unfold visit
    rw [load, Machine.exec_append, exec, Option.bind_some, Machine.exec_singleton]
    exact loggedIn_of_answer answered

/-! ### A logout -/

/-- A logout has ended the session of its cookie exactly if it has been accepted. -/
theorem State.Fits.ends_iff (fits : s.Fits i e) {access : Option Access} {cookie : Cookie}
    (logout : e.request = .logout access (some cookie)) :
  e.ends cookie.familyId = true ↔ e.stage = .answered (.loggedOut true)
  := by
  have ends : e.ends cookie.familyId = e.stage.closes := by
    unfold Exchange.ends
    rw [logout]
    show (e.stage.closes && decide (cookie.familyId = cookie.familyId)) = _
    rw [decide_eq_true rfl, Bool.and_true]
  rw [ends]
  constructor
  · intro closes
    have passed : e.stage.passed = true := by
      obtain passed | refreshes := fits.closes closes
      · exact passed
      · rw [logout] at refreshes
        cases refreshes
    cases here : e.stage with
    | answered reply =>
      rw [here] at closes passed
      cases reply with
      | tokens => cases passed
      | loggedOut closed => rw [show closed = true from closes]
      | refused => cases passed
    | _ =>
      rw [here] at closes
      cases closes
  · intro accepted
    rw [accepted]
    rfl

/-- Of a session that nothing else has ended, with its newest cookie in the jar: a page that is
loaded after a logout is logged in again exactly if the logout has not been accepted, and it is
whenever the tab's access token had expired when the logout was sent. -/
theorem logout_exact {grace : ℕ} {h : List (State × Action)} (run : (machine grace).Run h s)
    (found : s.exchanges[i]? = some e) {access : Option Access} {cookie : Cookie}
    (logout : e.request = .logout access (some cookie)) (jar : s.jar = some cookie)
    (newest : ∀ c, s.Issued c → c.familyId = cookie.familyId → c.jti ≤ cookie.jti)
    (young : s.now + second ≤ cookie.exp * second)
    (others : ∀ x ∈ s.exchanges, x.ends cookie.familyId = true → x = e) (tab : ℕ) :
  (s.Resumes grace tab ↔ e.stage ≠ .answered (.loggedOut true)) ∧
  ((∀ a, access = some a → expired e.sentAt a.exp = true) → s.Resumes grace tab)
  := by
  have sound := sound_of_run run
  have fits := sound.exchanges i e found
  have valid : expired s.now cookie.exp = false := by
    apply decide_eq_false
    have later : (cookie.exp + clockSkewLeeway) * second =
        cookie.exp * second + clockSkewLeeway * second := Nat.add_mul ..
    have positive : 0 < second := by decide
    omega
  have ended : s.Ended cookie.familyId ↔ e.stage = .answered (.loggedOut true) := by
    rw [← fits.ends_iff logout]
    constructor
    · intro ended
      obtain ⟨x, mem, ends⟩ := List.any_eq_true.mp ended
      rw [← others x mem ends]
      exact ends
    · exact fun ends => List.any_eq_true.mpr ⟨e, List.mem_of_getElem? found, ends⟩
  have resumes : s.Resumes grace tab ↔ e.stage ≠ .answered (.loggedOut true) := by
    rw [sound.resumes_iff jar newest valid, Ne, ← ended]
    constructor
    · exact fun live ended => sound.not_live_of_ended ended live
    · exact sound.live_of_not_ended (sound.jar cookie jar) young
  refine ⟨resumes, fun stale => resumes.mpr fun accepted => ?_⟩
  obtain ⟨a, sent, fresh⟩ := fits.passed (by rw [accepted]; rfl)
  rw [logout] at sent
  rw [stale a sent] at fresh
  cases fresh

/-- The user comes back after a quarter of an hour and logs out. -/
def idleLogout : List Action :=
  .login 0 :: List.replicate 5 (.serve 0) ++
    [.deliver 0 true, .tick 910000000, .logout 0, .serve 1, .deliver 1 true]

def idleExchanges : List Exchange :=
  [⟨0, .login, 0, .answered (.tokens ⟨0, 900⟩ ⟨0, 1, refreshTtl⟩), false⟩,
    ⟨0, .logout (some ⟨0, 900⟩) (some ⟨0, 1, refreshTtl⟩), 910000000,
      .answered (.refused .expired), false⟩]

theorem logout_exact_sample :
  ∃ h s, (machine 10).Run h s ∧ s.accessToken 0 = none ∧ s.Resumes 10 0
  := by
  obtain ⟨h, s, run, checked⟩ := Machine.exists_run_of_exec (M := machine 10) idleLogout
    (fun s => s.exchanges = idleExchanges ∧ s.jar = some ⟨0, 1, refreshTtl⟩ ∧ s.now = 910000000 ∧
      s.accessToken 0 = none) rfl (by decide)
  obtain ⟨exchanges, jar, now, token⟩ := of_decide_eq_true checked
  have found : s.exchanges[1]? = some (idleExchanges[1]) := by
    rw [exchanges]
    rfl
  have young : s.now + second ≤ refreshTtl * second := by
    rw [now]
    decide
  refine ⟨h, s, run, token, ?_⟩
  refine (logout_exact run found rfl jar ?_ young ?_ 0).2 ?_
  · intro c issued family
    obtain ⟨x, mem, issues⟩ := List.any_eq_true.mp issued
    rw [exchanges] at mem
    obtain rfl | rfl := List.mem_pair.mp mem
    · exact Nat.le_of_eq (congrArg Cookie.jti (of_decide_eq_true issues).symm)
    · cases issues
  · intro x mem ends
    rw [exchanges] at mem
    obtain rfl | rfl := List.mem_pair.mp mem
    · cases ends
    · rfl
  · intro a sent
    cases sent
    decide

end Lumina.Identity.Browser
