import Lumina.Etl.Chunk
import Lumina.Quota.Counter
import Mathlib.Data.List.Nodup
import Mathlib.Logic.Function.Basic

/-!
# The budget of a turn

`reserve` reserves a message of the day, the tokens of the month and a stream, one after the other,
and gives back what it has acquired when something is raised; `startTurn` does so when the turn
cannot be created.  A reservation counts as acquired when `check_and_reserve` has returned, while
the counter is increased before the expiry of its key is set and before a notification is written.

At most one operation raises, and then has no effect; the commands that give something back do not.
An exception that `except Exception` does not catch is `fatal`.
-/

namespace Lumina.Conversations.TurnBudget

open Interleaving Etl Quota

inductive TurnResource where
  | messagesDay
  | tokensMonth
  | streams
deriving DecidableEq, Repr

/-- `notification_quota_thresholds` and `quota_token_reserve_estimate`, and the times to live. -/
structure Settings where
  thresholds : List ℕ
  quotaTokenReserveEstimate : ℕ
  ttlSeconds : TurnResource → ℕ

def TurnResource.resource (cfg : Settings) (limit : Option ℕ) : TurnResource → Resource
  | messagesDay => ⟨"messages_day", .period, limit, cfg.thresholds, cfg.ttlSeconds messagesDay⟩
  | tokensMonth => ⟨"tokens_month", .period, limit, cfg.thresholds, cfg.ttlSeconds tokensMonth⟩
  | streams => ⟨"streams", .gauge, limit, cfg.thresholds, cfg.ttlSeconds streams⟩

/-- What is raised: a refusal of the quota, another `Exception`, or a `BaseException` that is none.
-/
inductive Raised where
  | exceeded (e : QuotaExceededError)
  | emptyMessage
  | exception
  | fatal
deriving DecidableEq, Repr

/-- The lookup of a limit, an operation on a resource, and the transaction of `_create_turn`. A
command of `release` is one that cleans up. -/
inductive TurnOp where
  | limits (r : TurnResource)
  | quota (r : TurnResource) (cleansUp : Bool) (op : Op)
  | createTurn

abbrev TurnOp.Reply : TurnOp → Type
  | .limits _ => Option ℕ
  | .quota _ _ op => op.Reply
  | .createTurn => Unit

abbrev TurnProg := Program TurnOp.Reply Raised

def performOp (op : TurnOp) : TurnProg op.Reply := Program.perform op

/-! ### The programs -/

/-- What becomes of an exception: that of a notification is logged and dropped. -/
def recovered : (op : Op) → Raised → Except Raised op.Reply
  | .notify _ _, .exception => .ok ()
  | _, e => .error e

/-- A program of the service, on one of the resources. -/
def on {α : Type} (r : TurnResource) (cleansUp : Bool) : Prog α → TurnProg α
  | .pure a => .pure a
  | .raise e => .raise (.exceeded e)
  | .call op next => .call (.quota r cleansUp op) fun reply =>
      match reply with
      | .ok y => on r cleansUp (next (.ok y))
      | .error e =>
          match recovered op e with
          | .ok y => on r cleansUp (next (.ok y))
          | .error e => .raise e

variable (cfg : Settings)

/-- `QuotaService.check_and_reserve`. -/
def check (r : TurnResource) (amount : ℕ) : TurnProg (Option QuotaReservation) := do
  let limit ← performOp (.limits r)
  on r false (checkAndReserve (r.resource cfg limit) amount)

/-- `TurnReservations`; a reservation is on the counter of its resource. -/
structure TurnReservations where
  all : List (TurnResource × QuotaReservation) := []
  tokens : Option QuotaReservation := none
  stream : Option QuotaReservation := none

def TurnReservations.of (all : List (TurnResource × QuotaReservation)) : TurnReservations where
  all := all
  tokens := all.lookup .tokensMonth
  stream := all.lookup .streams

/-- `TurnBudget.release`. -/
def release : List (TurnResource × QuotaReservation) → TurnProg Unit
  | [] => pure ()
  | (r, reservation) :: rest => do
    on r true (Quota.release reservation)
    release rest

/-- The reservations one after the other: when something is raised, what has been acquired before is
given back. -/
def acquire (acquired : List (TurnResource × QuotaReservation)) :
    List (TurnResource × ℕ) → TurnProg (List (TurnResource × QuotaReservation))
  | [] => pure acquired
  | (r, amount) :: rest => do
    match ← (check cfg r amount).attempt with
    | .ok none => acquire acquired rest
    | .ok (some reservation) => acquire (acquired ++ [(r, reservation)]) rest
    | .error e => do
      release acquired
      .raise e

/-- `token_reserve_for` -/
def tokenReserveFor (question : Text) : ℕ :=
  cfg.quotaTokenReserveEstimate + estimateTokens question

/-- What a turn reserves, in this order. -/
def amounts (question : Text) : List (TurnResource × ℕ) :=
  [(.messagesDay, 1), (.tokensMonth, tokenReserveFor cfg question), (.streams, 1)]

/-- `TurnBudget.reserve` -/
def reserve (question : Text) : TurnProg TurnReservations := do
  let all ← acquire cfg [] (amounts cfg question)
  pure (.of all)

/-- What becomes of the reservations when `_create_turn` has been called: `except Exception` gives
them back. -/
def created (reserved : TurnReservations) : Except Raised Unit → TurnProg TurnReservations
  | .ok () => pure reserved
  | .error .fatal => .raise .fatal
  | .error e => do
    release reserved.all
    .raise e

/-- `ChatService.start_turn`, as far as the quota is concerned. -/
def startTurn (content : Text) : TurnProg TurnReservations := do
  let question := strip content
  if question = [] then
    .raise .emptyMessage
  else do
    let reserved ← reserve cfg question
    let result ← (performOp .createTurn).attempt
    created reserved result

/-! ### What is raised -/

/-- An operation of `check_and_reserve`. -/
inductive Point where
  | limits
  | incrby
  | expire
  | guard
  | notify
  | decrby
deriving DecidableEq, Repr

inductive Place where
  | reserving (r : TurnResource) (point : Point)
  | createTurn
deriving DecidableEq, Repr

/-- The operation that raises. -/
structure Fault where
  place : Place
  isFatal : Bool
deriving DecidableEq, Repr

def point : Op → Option Point
  | .incrby _ => some .incrby
  | .decrby _ => some .decrby
  | .expire _ _ => some .expire
  | .setGuard _ => some .guard
  | .notify _ _ => some .notify
  | _ => none

def Fault.strikes (f : Fault) : TurnOp → Bool
  | .limits r => f.place = .reserving r .limits
  | .quota r false op => (point op).any fun p => f.place = .reserving r p
  | .quota _ true _ => false
  | .createTurn => f.place = .createTurn

def Fault.raised (f : Fault) : Raised := if f.isFatal then .fatal else .exception

abbrev State := TurnResource → Store

/-- An operation: the limits are those of the tenant, and each resource has a store of its own. -/
def exec (limits : TurnResource → Option ℕ) (fault : Option Fault) (op : TurnOp) (s : State) :
    Except Raised op.Reply × State :=
  match fault.filter (·.strikes op) with
  | some f => (.error f.raised, s)
  | none =>
      match op with
      | .limits r => (.ok (limits r), s)
      | .quota r _ op => (.ok ((s r).exec op).1, Function.update s r ((s r).exec op).2)
      | .createTurn => (.ok (), s)

variable (limits : TurnResource → Option ℕ) (fault : Option Fault)

/-- If the program raises, each counter has the value that it had before. -/
def Restores {α : Type} (p : TurnProg α) (s : State) : Prop :=
  ∀ e t, p.run (exec limits fault) s = (.error e, t) → ∀ r, (t r).counter = (s r).counter

/-! ### The condition -/

/-- The fault is at this place. -/
def Strikes (place : Place) : Prop := ∃ f ∈ fault, f.place = place

/-- `_maybe_notify` comes to the guard. -/
def Notifies (r : TurnResource) (used : ℤ) (limit : ℕ) : Prop :=
  r ≠ .streams ∧ limit ≠ 0 ∧ ∃ first ∈ cfg.thresholds.head?, first * limit ≤ used * 100

/-- `_maybe_notify` raises: at the guard, or in the notification with what it does not drop. -/
def Alarms (r : TurnResource) (used : ℤ) (limit : ℕ) (guards : List ℕ) : Prop :=
  Notifies cfg r used limit ∧
    (Strikes fault (.reserving r .guard) ∨
      (crossed cfg.thresholds used limit ∉ guards ∧
        ∃ f ∈ fault, f.place = .reserving r .notify ∧ f.isFatal))

/-- Something after the increment raises: the expiry, the notification, or the command that takes
the increment back. -/
def Interrupted (r : TurnResource) (amount : ℕ) (s : Store) (limit : ℕ) : Prop :=
  Strikes fault (.reserving r .expire) ∨
    Alarms cfg fault r (s.counter + amount) limit s.guards ∨
    (limit < s.counter + amount ∧ Strikes fault (.reserving r .decrby))

/-- The reservation raises with the counter increased. -/
def Leaks (r : TurnResource) (amount : ℕ) (s : Store) : Prop :=
  ∃ limit ∈ limits r, Interrupted cfg fault r amount s limit

/-- The reservation raises. -/
def Fails (r : TurnResource) (amount : ℕ) (s : Store) : Prop :=
  Strikes fault (.reserving r .limits) ∨
    ∃ limit ∈ limits r, Strikes fault (.reserving r .incrby) ∨
      Interrupted cfg fault r amount s limit ∨ limit < s.counter + amount

/-- The first reservation that raises has not increased its counter, unless by nothing, and the
counters that have been acquired before it were not negative. -/
def Recovers (s : State) (acquired : List TurnResource) : List (TurnResource × ℕ) → Prop
  | [] => True
  | (r, amount) :: rest =>
      (Fails cfg limits fault r amount (s r) →
        (Leaks cfg limits fault r amount (s r) → amount = 0) ∧
          ∀ r' ∈ acquired, 0 ≤ (s r').counter) ∧
      (¬ Fails cfg limits fault r amount (s r) →
        Recovers s (if (limits r).isSome then acquired ++ [r] else acquired) rest)

/-- When the turn cannot be created, it is an `Exception` and the counters that have been acquired
were not negative, or nothing has been added to them. -/
def RecoversTurn (s : State) (todo : List (TurnResource × ℕ)) : Prop :=
  (∀ x ∈ todo, ¬ Fails cfg limits fault x.1 x.2 (s x.1)) →
    ∀ f ∈ fault, f.place = .createTurn → ∀ x ∈ todo, (limits x.1).isSome →
      if f.isFatal then x.2 = 0 else 0 ≤ (s x.1).counter

/-! ### One reservation -/

section Reservation

variable {limits fault} {α : Type} {r : TurnResource} {s : State}

theorem Strikes.eq {place place' : Place} (h : Strikes fault place) (h' : Strikes fault place') :
  place = place'
  := by
  obtain ⟨f, hf, rfl⟩ := h
  obtain ⟨f', hf', rfl⟩ := h'
  cases hf
  cases hf'
  rfl

/-- An operation raises if the fault is at its place. -/
theorem filter_eq_none_iff {op : TurnOp} {place : Place}
    (hop : ∀ f : Fault, f.strikes op = decide (f.place = place)) :
  fault.filter (·.strikes op) = none ↔ ¬ Strikes fault place
  := by
  rw [Option.filter_eq_none_iff]
  constructor
  · rintro free ⟨f, hf, hplace⟩
    apply free f hf
    rw [hop, hplace, decide_eq_true rfl]
  · intro free f hf struck
    rw [hop, decide_eq_true_eq] at struck
    exact free ⟨f, hf, struck⟩

/-- The rest of a program of the service, with the reply to its first operation. -/
def resume (r : TurnResource) (b : Bool) (op : Op) (f : op.Reply → Prog α) :
    Except Raised op.Reply → TurnProg α
  | .ok y => on r b (f y)
  | .error e =>
      match recovered op e with
      | .ok y => on r b (f y)
      | .error e => .raise e

theorem run_on {b : Bool} {op : Op} (f : op.Reply → Prog α) (s : State) :
  (on r b (Quota.perform op >>= f)).run (exec limits fault) s =
    (resume r b op f (exec limits fault (.quota r b op) s).1).run (exec limits fault)
      (exec limits fault (.quota r b op) s).2
  := by
  have begins : on r b (Quota.perform op >>= f) = .call (.quota r b op) (resume r b op f) := by
    have called : Quota.perform op >>= f = .call op fun x => (Program.ofExcept x).bind f := rfl
    rw [called, on]
    congr 1
    funext reply
    cases reply with
    | ok y => rfl
    | error e =>
      unfold resume
      dsimp only
      cases recovered op e
      all_goals rfl
  rw [begins]
  rfl

/-- An operation that does not raise. -/
theorem run_on_of_free {b : Bool} {op : Op} (free : fault.filter (·.strikes (.quota r b op)) = none)
    (f : op.Reply → Prog α) (s : State) :
  (on r b (Quota.perform op >>= f)).run (exec limits fault) s =
    (on r b (f ((s r).exec op).1)).run (exec limits fault)
      (Function.update s r ((s r).exec op).2)
  := by
  have reply : exec limits fault (.quota r b op) s =
      (.ok ((s r).exec op).1, Function.update s r ((s r).exec op).2) := by
    unfold exec
    rw [free]
  rw [run_on, reply]
  rfl

/-- An operation that raises. -/
theorem run_on_of_struck {b : Bool} {op : Op} {x : Fault}
    (struck : fault.filter (·.strikes (.quota r b op)) = some x)
    (f : op.Reply → Prog α) (s : State) :
  (on r b (Quota.perform op >>= f)).run (exec limits fault) s =
    match recovered op x.raised with
    | .ok y => (on r b (f y)).run (exec limits fault) s
    | .error e => (.error e, s)
  := by
  have reply : exec limits fault (.quota r b op) s = (.error x.raised, s) := by
    unfold exec
    rw [struck]
  rw [run_on, reply]
  unfold resume
  dsimp only
  cases recovered op x.raised
  all_goals rfl

/-- The counter of a resource has moved, and nothing else of the others. -/
def Moved (r : TurnResource) (n : ℤ) (s t : State) : Prop :=
  (∀ r' ≠ r, t r' = s r') ∧ (t r).counter = (s r).counter + n

theorem Moved.refl (r : TurnResource) (s : State) : Moved r 0 s s :=
  ⟨fun _ _ => rfl, (add_zero _).symm⟩

theorem Moved.trans {m n : ℤ} {t u : State} (h : Moved r m s t) (h' : Moved r n t u) :
  Moved r (m + n) s u
  := ⟨fun r' ne => (h'.1 r' ne).trans (h.1 r' ne), by rw [h'.2, h.2, add_assoc]⟩

theorem moved_exec (op : Op) (h : op.isRelative) (r : TurnResource) (s : State) :
  Moved r op.delta s (Function.update s r ((s r).exec op).2)
  := by
  constructor
  · exact fun r' ne => Function.update_of_ne ne _ _
  · rw [Function.update_self]
    exact (Store.exec_counter h (s r)).1

theorem resource_thresholds (r : TurnResource) (limit : Option ℕ) :
  (r.resource cfg limit).thresholds = cfg.thresholds
  := by
  cases r
  all_goals rfl

theorem resource_metering (r : TurnResource) (limit : Option ℕ) :
  (r.resource cfg limit).metering = .gauge ↔ r = .streams
  := by
  cases r
  · exact iff_of_false (fun h => nomatch h) (fun h => nomatch h)
  · exact iff_of_false (fun h => nomatch h) (fun h => nomatch h)
  · exact iff_of_true rfl rfl

theorem maybeNotify_of_not {used : ℤ} {limit : ℕ} (h : ¬ Notifies cfg r used limit) :
  maybeNotify (r.resource cfg (some limit)) used limit = pure ()
  := by
  unfold Notifies at h
  unfold maybeNotify
  rw [resource_thresholds]
  cases hthresholds : cfg.thresholds with
  | nil => rfl
  | cons first rest =>
    rw [hthresholds] at h
    apply if_pos
    rw [resource_metering]
    by_contra quiet
    rw [not_or, not_or, not_lt] at quiet
    exact h ⟨quiet.1, quiet.2.1, first, rfl, quiet.2.2⟩

theorem maybeNotify_of_notifies {used : ℤ} {limit : ℕ} (h : Notifies cfg r used limit) :
  maybeNotify (r.resource cfg (some limit)) used limit = (do
    if ← Quota.perform (.setGuard (crossed cfg.thresholds used limit)) then
      Quota.perform (.notify (min used limit) limit)
    else pure ())
  := by
  obtain ⟨metered, positive, first, hfirst, reached⟩ := h
  unfold maybeNotify
  rw [resource_thresholds]
  cases hthresholds : cfg.thresholds with
  | nil =>
    rw [hthresholds] at hfirst
    cases hfirst
  | cons first rest =>
    rw [hthresholds] at hfirst
    cases hfirst
    apply if_neg
    rw [resource_metering, not_or, not_or, not_lt]
    exact ⟨metered, positive, reached⟩

/-- The part of `_maybe_notify`: it raises and leaves the counters as they are, or goes on. -/
theorem run_maybeNotify (used : ℤ) (limit : ℕ) (f : Unit → Prog α) (s : State) :
  let p := (on r false (maybeNotify (r.resource cfg (some limit)) used limit >>= f)).run
    (exec limits fault) s
  (Alarms cfg fault r used limit (s r).guards ∧ ∃ e t, Moved r 0 s t ∧ p = (.error e, t)) ∨
    (¬ Alarms cfg fault r used limit (s r).guards ∧
      ∃ t, Moved r 0 s t ∧ p = (on r false (f ())).run (exec limits fault) t)
  := by
  intro p
  by_cases notifies : Notifies cfg r used limit
  · generalize hthreshold : crossed cfg.thresholds used limit = threshold
    have program : p = (on r false (Quota.perform (.setGuard threshold) >>= fun fresh =>
        (if fresh then Quota.perform (.notify (min used limit) limit) else pure ()) >>= f)).run
          (exec limits fault) s := by
      change (on r false (maybeNotify (r.resource cfg (some limit)) used limit >>= f)).run _ s = _
      rw [maybeNotify_of_notifies cfg notifies, hthreshold]
      congr 2
      exact Program.bind_assoc _ _ _
    rw [program]
    unfold Alarms
    rw [hthreshold]
    cases guard : fault.filter (·.strikes (.quota r false (.setGuard threshold))) with
    | some x =>
      obtain ⟨hx, struck⟩ := Option.filter_eq_some_iff.mp guard
      left
      refine ⟨⟨notifies, Or.inl ⟨x, hx, of_decide_eq_true struck⟩⟩, x.raised, s,
        Moved.refl r s, ?_⟩
      rw [run_on_of_struck guard]
      rfl
    | none =>
      have free : ¬ Strikes fault (.reserving r .guard) :=
        (filter_eq_none_iff fun _ => rfl).mp guard
      have moved := moved_exec (.setGuard threshold) rfl r s
      rw [run_on_of_free guard]
      by_cases set : threshold ∈ (s r).guards
      · have reply : ((s r).exec (.setGuard threshold)) = (false, s r) := if_pos set
        right
        refine ⟨?_, _, moved, ?_⟩
        · rintro ⟨-, struck | ⟨fresh, -⟩⟩
          · exact free struck
          · exact fresh set
        · rw [reply]
          rfl
      · have reply : ((s r).exec (.setGuard threshold)).1 = true :=
          congrArg Prod.fst (if_neg set)
        rw [reply]
        change (_ ∧ ∃ e t, _ ∧ (on r false (Quota.perform (.notify (min used limit) limit) >>=
          f)).run (exec limits fault) _ = _) ∨ (_ ∧ ∃ t, _ ∧
            (on r false (Quota.perform (.notify (min used limit) limit) >>= f)).run
              (exec limits fault) _ = _)
        cases write : fault.filter
            (·.strikes (.quota r false (.notify (min used limit) limit))) with
        | none =>
          have dropped : ¬ Strikes fault (.reserving r .notify) :=
            (filter_eq_none_iff fun _ => rfl).mp write
          right
          have written := moved_exec (.notify (min used limit) limit) rfl r
          refine ⟨?_, _, moved.trans (written _), ?_⟩
          · rintro ⟨-, struck | ⟨-, x, hx, hplace, -⟩⟩
            · exact free struck
            · exact dropped ⟨x, hx, hplace⟩
          · exact run_on_of_free write _ _
        | some x =>
          obtain ⟨hx, struck⟩ := Option.filter_eq_some_iff.mp write
          rw [run_on_of_struck write]
          cases fatal : x.isFatal with
          | true =>
            left
            refine ⟨⟨notifies, Or.inr ⟨set, x, hx, of_decide_eq_true struck, fatal⟩⟩, x.raised, _,
              moved, ?_⟩
            unfold Fault.raised
            rw [fatal]
            rfl
          | false =>
            right
            refine ⟨?_, _, moved, ?_⟩
            · rintro ⟨-, struck | ⟨-, y, hy, -, hfatal⟩⟩
              · exact free struck
              · cases hx.symm.trans hy
                rw [fatal] at hfatal
                cases hfatal
            · unfold Fault.raised
              rw [fatal]
              rfl
  · right
    refine ⟨fun alarms => notifies alarms.1, s, Moved.refl r s, ?_⟩
    change (on r false (maybeNotify (r.resource cfg (some limit)) used limit >>= f)).run _ s = _
    rw [maybeNotify_of_not cfg notifies]
    rfl

/-- The end of `check_and_reserve`. -/
def verdict (r : TurnResource) (limit amount : ℕ) (used : ℤ) : Prog (Option QuotaReservation) :=
  if limit < used then do
    let _ ← Quota.perform (.decrby amount)
    .raise (exceeded (r.resource cfg (some limit)) limit (used - amount)
      ((r.resource cfg (some limit)).metering ≠ .gauge))
  else pure (some ⟨amount, cfg.ttlSeconds r⟩)

/-- What follows the increment, with its reply. -/
def checked (r : TurnResource) (limit amount : ℕ) (used : ℤ) : Prog (Option QuotaReservation) := do
  Quota.perform (.expire (cfg.ttlSeconds r) false)
  maybeNotify (r.resource cfg (some limit)) used limit
  verdict cfg r limit amount used

theorem checkAndReserve_eq (r : TurnResource) (limit amount : ℕ) :
  checkAndReserve (r.resource cfg (some limit)) amount =
    Quota.perform (.incrby amount) >>= checked cfg r limit amount
  := by
  cases r
  all_goals rfl

/-- What follows the increment: it is interrupted, it is taken back, or the reservation is made. -/
theorem run_checked (limit amount : ℕ) (used : ℤ) (s : State) :
  let p := (on r false (checked cfg r limit amount used)).run (exec limits fault) s
  let interrupted := Strikes fault (.reserving r .expire) ∨
    Alarms cfg fault r used limit (s r).guards ∨
      (limit < used ∧ Strikes fault (.reserving r .decrby))
  (interrupted ∧ ∃ e t, Moved r 0 s t ∧ p = (.error e, t)) ∨
    (¬ interrupted ∧ limit < used ∧ ∃ e t, Moved r (-amount) s t ∧ p = (.error e, t)) ∨
    (¬ interrupted ∧ ¬ limit < used ∧ ∃ t, Moved r 0 s t ∧
      p = (.ok (some ⟨amount, cfg.ttlSeconds r⟩), t))
  := by
  intro p interrupted
  have program : p = (on r false (Quota.perform (.expire (cfg.ttlSeconds r) false) >>= _)).run
    (exec limits fault) s := rfl
  rw [program]
  cases expiry : fault.filter
      (·.strikes (.quota r false (.expire (cfg.ttlSeconds r) false))) with
  | some x =>
    obtain ⟨hx, struck⟩ := Option.filter_eq_some_iff.mp expiry
    left
    refine ⟨Or.inl ⟨x, hx, of_decide_eq_true struck⟩, x.raised, s, Moved.refl r s, ?_⟩
    rw [run_on_of_struck expiry]
    rfl
  | none =>
    have kept : ¬ Strikes fault (.reserving r .expire) :=
      (filter_eq_none_iff fun _ => rfl).mp expiry
    have same : Function.update s r ((s r).exec (.expire (cfg.ttlSeconds r) false)).2 = s :=
      Function.update_eq_self r s
    rw [run_on_of_free expiry, same]
    obtain ⟨alarms, e, t, moved, raised⟩ | ⟨quiet, t, moved, goesOn⟩ :=
      @run_maybeNotify cfg limits fault _ r used limit (fun _ => verdict cfg r limit amount used) s
    · left
      exact ⟨Or.inr (Or.inl alarms), e, t, moved, raised⟩
    · by_cases great : (limit : ℤ) < used
      · have refused : verdict cfg r limit amount used = Quota.perform (.decrby amount) >>= _ :=
          if_pos great
        cases back : fault.filter (·.strikes (.quota r false (.decrby amount))) with
        | some x =>
          obtain ⟨hx, struck⟩ := Option.filter_eq_some_iff.mp back
          left
          refine ⟨Or.inr (Or.inr ⟨great, x, hx, of_decide_eq_true struck⟩), x.raised, t, moved,
            goesOn.trans ?_⟩
          rw [refused, run_on_of_struck back]
          rfl
        | none =>
          have free : ¬ Strikes fault (.reserving r .decrby) :=
            (filter_eq_none_iff fun _ => rfl).mp back
          right
          left
          have taken := @run_on_of_free limits fault _ r false (.decrby amount) back (fun _ =>
            .raise (exceeded (r.resource cfg (some limit)) limit (used - amount)
              ((r.resource cfg (some limit)).metering ≠ .gauge)) :
                ℤ → Prog (Option QuotaReservation)) t
          refine ⟨?_, great, _, _, ?_, goesOn.trans ((congrArg (fun q =>
            (on r false q).run (exec limits fault) t) refused).trans taken)⟩
          · rintro (struck | alarms | ⟨-, struck⟩)
            · exact kept struck
            · exact quiet alarms
            · exact free struck
          · have both := moved.trans (moved_exec (.decrby amount) rfl r t)
            rw [zero_add] at both
            exact both
      · have made : verdict cfg r limit amount used = pure (some ⟨amount, cfg.ttlSeconds r⟩) :=
          if_neg great
        right
        right
        refine ⟨?_, great, t, moved, goesOn.trans ?_⟩
        · rintro (struck | alarms | ⟨above, -⟩)
          · exact kept struck
          · exact quiet alarms
          · exact great above
        · rw [made]
          rfl

/-- What raises after the increment is not the lookup of the limit and not the increment. -/
theorem Interrupted.strikes {amount limit : ℕ} {s : Store}
    (h : Interrupted cfg fault r amount s limit) :
  ∃ p, Strikes fault (.reserving r p) ∧ p ≠ .limits ∧ p ≠ .incrby
  := by
  obtain struck | ⟨-, struck | ⟨-, f, hf, hplace, -⟩⟩ | ⟨-, struck⟩ := h
  · exact ⟨_, struck, nofun, nofun⟩
  · exact ⟨_, struck, nofun, nofun⟩
  · exact ⟨_, ⟨f, hf, hplace⟩, nofun, nofun⟩
  · exact ⟨_, struck, nofun, nofun⟩

theorem not_interrupted {amount limit : ℕ} {s : Store} {p : Point}
    (h : Strikes fault (.reserving r p)) (early : p = .limits ∨ p = .incrby) :
  ¬ Interrupted cfg fault r amount s limit
  := by
  intro interrupted
  obtain ⟨p', h', notLimits, notIncrby⟩ := interrupted.strikes
  cases h.eq h'
  obtain rfl | rfl := early
  · exact notLimits rfl
  · exact notIncrby rfl

/-- A reservation on a counter: it raises, with the increment in place exactly if it has been
interrupted, or it has been made. -/
theorem run_counted (limit amount : ℕ) (s : State) :
  let p := (on r false (checkAndReserve (r.resource cfg (some limit)) amount)).run
    (exec limits fault) s
  let fails := Strikes fault (.reserving r .incrby) ∨
    Interrupted cfg fault r amount (s r) limit ∨ limit < (s r).counter + amount
  (fails ∧ ∃ e t n, Moved r n s t ∧ p = (.error e, t) ∧
    ((Interrupted cfg fault r amount (s r) limit ∧ n = amount) ∨
      (¬ Interrupted cfg fault r amount (s r) limit ∧ n = 0))) ∨
  (¬ fails ∧ ∃ t, Moved r amount s t ∧ p = (.ok (some ⟨amount, cfg.ttlSeconds r⟩), t))
  := by
  intro p fails
  have program : p = (on r false (Quota.perform (.incrby amount) >>=
      checked cfg r limit amount)).run (exec limits fault) s :=
    congrArg (fun q => (on r false q).run (exec limits fault) s)
      (checkAndReserve_eq cfg r limit amount)
  rw [program]
  cases increment : fault.filter (·.strikes (.quota r false (.incrby amount))) with
  | some x =>
    obtain ⟨hx, struck⟩ := Option.filter_eq_some_iff.mp increment
    have strikes : Strikes fault (.reserving r .incrby) := ⟨x, hx, of_decide_eq_true struck⟩
    left
    refine ⟨Or.inl strikes, x.raised, s, 0, Moved.refl r s, ?_,
      Or.inr ⟨not_interrupted cfg strikes (Or.inr rfl), rfl⟩⟩
    rw [run_on_of_struck increment]
    rfl
  | none =>
    have free : ¬ Strikes fault (.reserving r .incrby) :=
      (filter_eq_none_iff fun _ => rfl).mp increment
    have moved := moved_exec (.incrby amount) rfl r s
    rw [run_on_of_free increment]
    have guards : (Function.update s r ((s r).exec (.incrby amount)).2 r).guards =
        (s r).guards := by
      rw [Function.update_self]
      rfl
    obtain ⟨interrupted, e, t, rest, raised⟩ | ⟨undone, great, e, t, rest, raised⟩ |
      ⟨undone, small, t, rest, made⟩ := @run_checked cfg limits fault r limit amount
        ((s r).counter + amount) (Function.update s r ((s r).exec (.incrby amount)).2)
    · rw [guards] at interrupted
      left
      exact ⟨Or.inr (Or.inl interrupted), e, t, _, moved.trans rest, raised,
        Or.inl ⟨interrupted, add_zero _⟩⟩
    · rw [guards] at undone
      left
      exact ⟨Or.inr (Or.inr great), e, t, _, moved.trans rest, raised,
        Or.inr ⟨undone, add_neg_cancel _⟩⟩
    · rw [guards] at undone
      right
      refine ⟨?_, t, ?_, made⟩
      · rintro (struck | interrupted | great)
        · exact free struck
        · exact undone interrupted
        · exact small great
      · have both := moved.trans rest
        rw [add_zero] at both
        exact both

/-- `check_and_reserve`: it raises, with the increment in place exactly if it leaks, or it has
nothing to reserve, or the reservation is made. -/
theorem run_check (r : TurnResource) (amount : ℕ) (s : State) :
  let p := (check cfg r amount).run (exec limits fault) s
  (Fails cfg limits fault r amount (s r) ∧ ∃ e t n, Moved r n s t ∧ p = (.error e, t) ∧
    ((Leaks cfg limits fault r amount (s r) ∧ n = amount) ∨
      (¬ Leaks cfg limits fault r amount (s r) ∧ n = 0))) ∨
  (¬ Fails cfg limits fault r amount (s r) ∧ limits r = none ∧ p = (.ok none, s)) ∨
  (¬ Fails cfg limits fault r amount (s r) ∧ (limits r).isSome ∧ ∃ t, Moved r amount s t ∧
    p = (.ok (some ⟨amount, cfg.ttlSeconds r⟩), t))
  := by
  intro p
  have program : p = Program.andThen (exec limits fault)
      (fun limit => on r false (checkAndReserve (r.resource cfg limit) amount))
      (exec limits fault (.limits r) s) := by
    change (performOp (.limits r) >>= _).run _ s = _
    rw [Program.run_bind']
    exact congrArg _ (Program.run_perform _ _ _)
  rw [program]
  cases lookup : fault.filter (·.strikes (.limits r)) with
  | some x =>
    obtain ⟨hx, struck⟩ := Option.filter_eq_some_iff.mp lookup
    have strikes : Strikes fault (.reserving r .limits) := ⟨x, hx, of_decide_eq_true struck⟩
    left
    refine ⟨Or.inl strikes, x.raised, s, 0, Moved.refl r s, ?_, Or.inr ⟨?_, rfl⟩⟩
    · unfold exec
      rw [lookup]
      rfl
    · rintro ⟨limit, -, interrupted⟩
      exact not_interrupted cfg strikes (Or.inl rfl) interrupted
  | none =>
    have free : ¬ Strikes fault (.reserving r .limits) :=
      (filter_eq_none_iff fun _ => rfl).mp lookup
    have found : exec limits fault (.limits r) s = (.ok (limits r), s) := by
      unfold exec
      rw [lookup]
    rw [found, Program.andThen_ok]
    unfold Fails Leaks
    cases hlimit : limits r with
    | none =>
      right
      left
      refine ⟨?_, rfl, ?_⟩
      · rintro (struck | ⟨_, ⟨⟩, -⟩)
        exact free struck
      · cases r
        all_goals rfl
    | some limit =>
      have only (P : ℕ → Prop) : (∃ l ∈ some limit, P l) ↔ P limit := by
        constructor
        · rintro ⟨_, ⟨⟩, h⟩
          exact h
        · intro h
          exact ⟨limit, rfl, h⟩
      rw [only, only, or_iff_right free]
      obtain ⟨fails, e, t, n, moved, raised, left_⟩ | ⟨succeeds, t, moved, made⟩ :=
        @run_counted cfg limits fault r limit amount s
      · left
        exact ⟨fails, e, t, n, moved, raised, left_⟩
      · right
        right
        exact ⟨succeeds, rfl, t, moved, made⟩

/-! ### What is given back -/

/-- A command that cleans up does not raise. -/
theorem filter_cleansUp (op : Op) : fault.filter (·.strikes (.quota r true op)) = none :=
  Option.filter_eq_none_iff.mpr fun _ _ => nofun

/-- What is given back of one reservation. -/
theorem run_on_release (r : TurnResource) (reservation : QuotaReservation) (s : State) :
  ∃ t, (on r true (Quota.release reservation)).run (exec limits fault) s = (.ok (), t) ∧
    (∀ r' ≠ r, t r' = s r') ∧ (t r).counter = max 0 ((s r).counter - reservation.amount)
  := by
  have expiry (t : State) : (on r true (keepExpiry reservation)).run (exec limits fault) t =
      (.ok (), t) := by
    have reply : exec limits fault (.quota r true (.expire reservation.ttlSeconds true)) t =
        (.ok (), Function.update t r (t r)) := by
      unfold exec
      rw [filter_cleansUp]
      rfl
    have program : keepExpiry reservation =
        Quota.perform (.expire reservation.ttlSeconds true) >>= fun _ => pure () := by
      change Program.call _ _ = Program.call _ _
      congr 1
      funext x
      cases x
      all_goals rfl
    rw [program, run_on, reply, Function.update_eq_self]
    rfl
  have moved := moved_exec (.decrby reservation.amount) rfl r s
  have first : (on r true (Quota.release reservation)).run (exec limits fault) s =
      (on r true (clamp ((s r).counter - reservation.amount) >>= fun _ =>
        keepExpiry reservation)).run (exec limits fault)
          (Function.update s r ((s r).exec (.decrby reservation.amount)).2) :=
    run_on_of_free (filter_cleansUp _) _ s
  generalize Function.update s r ((s r).exec (.decrby reservation.amount)).2 = t at *
  have value : (t r).counter = (s r).counter - reservation.amount :=
    moved.2.trans (sub_eq_add_neg _ _).symm
  rw [first]
  unfold clamp
  by_cases negative : (s r).counter - reservation.amount < 0
  · rw [if_pos negative]
    have back := moved_exec (.incrby (-((s r).counter - reservation.amount))) rfl r t
    have put := @run_on_of_free limits fault _ r true _
      (filter_cleansUp (.incrby (-((s r).counter - reservation.amount))))
        (fun _ => keepExpiry reservation) t
    have assoc : (do
        let _ ← Quota.perform (.incrby (-((s r).counter - reservation.amount)))
        pure ()) >>= (fun _ => keepExpiry reservation) =
          Quota.perform (.incrby (-((s r).counter - reservation.amount))) >>=
            fun _ => keepExpiry reservation := Program.bind_assoc _ _ _
    rw [assoc, put, expiry]
    refine ⟨_, rfl, (moved.trans back).1, ?_⟩
    rw [max_eq_left negative.le, back.2, value]
    exact add_neg_cancel _
  · rw [if_neg negative]
    refine ⟨t, expiry t, moved.1, ?_⟩
    rw [max_eq_right (not_lt.mp negative), value]

/-- The reservations that are held: each has been added to the counter of its resource. -/
structure Held (s₀ s : State) (acquired : List (TurnResource × QuotaReservation)) : Prop where
  nodup : (acquired.map Prod.fst).Nodup
  others : ∀ r, r ∉ acquired.map Prod.fst → s r = s₀ r
  counter : ∀ x ∈ acquired, (s x.1).counter = (s₀ x.1).counter + x.2.amount

/-- What is given back of several reservations, one for each resource. -/
theorem run_release {acquired : List (TurnResource × QuotaReservation)}
    (nodup : (acquired.map Prod.fst).Nodup) (s : State) :
  ∃ t, (release acquired).run (exec limits fault) s = (.ok (), t) ∧
    (∀ r, r ∉ acquired.map Prod.fst → t r = s r) ∧
    ∀ x ∈ acquired, (t x.1).counter = max 0 ((s x.1).counter - x.2.amount)
  := by
  induction acquired generalizing s with
  | nil => exact ⟨s, rfl, fun _ _ => rfl, nofun⟩
  | cons x acquired ih =>
    obtain ⟨r, reservation⟩ := x
    obtain ⟨notMem, nodup⟩ := List.nodup_cons.mp nodup
    obtain ⟨t, first, others, counter⟩ := run_on_release r reservation s
    obtain ⟨u, rest, others', counters⟩ := ih nodup t
    refine ⟨u, ?_, ?_, ?_⟩
    · unfold release
      rw [Program.run_bind', first]
      exact rest
    · intro r' hr'
      rw [List.map_cons, List.mem_cons, not_or] at hr'
      exact (others' r' hr'.2).trans (others r' hr'.1)
    · intro y hy
      obtain rfl | hy := List.mem_cons.mp hy
      · rw [others' r notMem]
        exact counter
      · have mem : y.1 ∈ acquired.map Prod.fst := List.mem_map_of_mem hy
        have ne : y.1 ≠ r := fun same => notMem (same ▸ mem)
        rw [counters y hy, others y.1 ne]

/-- What is held is given back: a counter has its value again, or zero if it was negative. -/
theorem Held.run_release {s₀ s : State} {acquired : List (TurnResource × QuotaReservation)}
    (held : Held s₀ s acquired) {t : State} (same : ∀ r ∈ acquired.map Prod.fst, t r = s r) :
  ∃ u, (release acquired).run (exec limits fault) t = (.ok (), u) ∧
    (∀ r, r ∉ acquired.map Prod.fst → u r = t r) ∧
    ∀ r ∈ acquired.map Prod.fst, (u r).counter = max 0 (s₀ r).counter
  := by
  obtain ⟨u, run, others, counter⟩ := TurnBudget.run_release held.nodup t
  refine ⟨u, run, others, ?_⟩
  intro r hr
  obtain ⟨x, hx, rfl⟩ := List.mem_map.mp hr
  rw [counter x hx, same x.1 hr, held.counter x hx, add_sub_cancel_right]

/-- What is held is given back after another counter has moved: the counters have their values again
exactly if it has moved by nothing and they were not negative. -/
theorem Held.restored_iff {s₀ s t u : State} {acquired : List (TurnResource × QuotaReservation)}
    (held : Held s₀ s acquired) {n : ℤ} (moved : Moved r n s t)
    (free : r ∉ acquired.map Prod.fst)
    (others : ∀ r, r ∉ acquired.map Prod.fst → u r = t r)
    (back : ∀ r ∈ acquired.map Prod.fst, (u r).counter = max 0 (s₀ r).counter) :
  (∀ r', (u r').counter = (s₀ r').counter) ↔
    n = 0 ∧ ∀ r' ∈ acquired.map Prod.fst, 0 ≤ (s₀ r').counter
  := by
  have own : (u r).counter = (s₀ r).counter + n := by
    rw [others r free, moved.2, held.others r free]
  constructor
  · intro same
    constructor
    · have now := same r
      omega
    · intro r' hr'
      rw [← same r', back r' hr']
      exact le_max_left 0 _
  · rintro ⟨rfl, nonneg⟩ r'
    by_cases mine : r' = r
    · subst mine
      rw [own, add_zero]
    · by_cases hr' : r' ∈ acquired.map Prod.fst
      · rw [back r' hr']
        exact max_eq_right (nonneg r' hr')
      · rw [others r' hr', moved.1 r' mine, held.others r' hr']

theorem Held.snoc {s₀ s t : State} {acquired : List (TurnResource × QuotaReservation)}
    (held : Held s₀ s acquired) (free : r ∉ acquired.map Prod.fst)
    {reservation : QuotaReservation} (moved : Moved r reservation.amount s t) :
  Held s₀ t (acquired ++ [(r, reservation)])
  := by
  have resources : (acquired ++ [(r, reservation)]).map Prod.fst = acquired.map Prod.fst ++ [r] :=
    List.map_append
  constructor
  · rw [resources]
    refine List.nodup_append.mpr ⟨held.nodup, List.nodup_singleton r, ?_⟩
    intro r' hr' _ hr same
    rw [List.mem_singleton.mp hr] at same
    exact free (same ▸ hr')
  · intro r' hr'
    rw [resources, List.mem_append, List.mem_singleton, not_or] at hr'
    exact (moved.1 r' hr'.2).trans (held.others r' hr'.1)
  · intro x hx
    obtain hx | hx := List.mem_append.mp hx
    · have mem : x.1 ∈ acquired.map Prod.fst := List.mem_map_of_mem hx
      have ne : x.1 ≠ r := fun same => free (same ▸ mem)
      rw [moved.1 x.1 ne]
      exact held.counter x hx
    · rw [List.mem_singleton.mp hx]
      exact moved.2.trans (by rw [held.others r free])

/-! ### The reservations of a turn -/

/-- What is acquired if no reservation raises. -/
def granted (cfg : Settings) (limits : TurnResource → Option ℕ) (todo : List (TurnResource × ℕ)) :
    List (TurnResource × QuotaReservation) :=
  (todo.filter fun x => (limits x.1).isSome).map fun x => (x.1, ⟨x.2, cfg.ttlSeconds x.1⟩)

theorem recovers_of_not_fails {s : State} {todo : List (TurnResource × ℕ)}
    (h : ∀ x ∈ todo, ¬ Fails cfg limits fault x.1 x.2 (s x.1)) (acquired : List TurnResource) :
  Recovers cfg limits fault s acquired todo
  := by
  induction todo generalizing acquired with
  | nil => trivial
  | cons x todo ih =>
    constructor
    · intro fails
      exact absurd fails (h x List.mem_cons_self)
    · intro _
      exact ih (fun x hx => h x (List.mem_cons_of_mem _ hx)) _

/-- The reservations are all made, or one of them raises and the counters have their values again
exactly under the condition. -/
theorem run_acquire {s₀ s : State} {acquired : List (TurnResource × QuotaReservation)}
    (held : Held s₀ s acquired) {todo : List (TurnResource × ℕ)}
    (nodup : (acquired.map Prod.fst ++ todo.map Prod.fst).Nodup) :
  ((∀ x ∈ todo, ¬ Fails cfg limits fault x.1 x.2 (s₀ x.1)) ∧
    ∃ t, Held s₀ t (acquired ++ granted cfg limits todo) ∧
      (acquire cfg acquired todo).run (exec limits fault) s =
        (.ok (acquired ++ granted cfg limits todo), t)) ∨
  ((∃ x ∈ todo, Fails cfg limits fault x.1 x.2 (s₀ x.1)) ∧
    ∃ e t, (acquire cfg acquired todo).run (exec limits fault) s = (.error e, t) ∧
      ((∀ r, (t r).counter = (s₀ r).counter) ↔
        Recovers cfg limits fault s₀ (acquired.map Prod.fst) todo))
  := by
  induction todo generalizing acquired s with
  | nil =>
    left
    refine ⟨nofun, s, ?_, ?_⟩
    · exact (List.append_nil acquired).symm ▸ held
    · exact congrArg (fun all => (Except.ok all, s)) (List.append_nil acquired).symm
  | cons x todo ih =>
    obtain ⟨r, amount⟩ := x
    have free : r ∉ acquired.map Prod.fst := by
      intro mem
      exact (List.nodup_append.mp nodup).2.2 r mem r List.mem_cons_self rfl
    have here : s r = s₀ r := held.others r free
    have program (result : Except Raised (Option QuotaReservation)) (t : State)
        (h : (check cfg r amount).run (exec limits fault) s = (result, t)) :
        (acquire cfg acquired ((r, amount) :: todo)).run (exec limits fault) s =
          (match result with
            | .ok none => acquire cfg acquired todo
            | .ok (some reservation) => acquire cfg (acquired ++ [(r, reservation)]) todo
            | .error e => release acquired >>= fun _ => .raise e).run (exec limits fault) t := by
      rw [acquire, Program.run_bind', Program.run_attempt, h, Program.andThen_ok]
    obtain ⟨fails, e, t, n, moved, raised, leaks⟩ | ⟨succeeds, unlimited, nothing⟩ |
      ⟨succeeds, limited, t, moved, made⟩ := @run_check cfg limits fault r amount s
    · right
      rw [here] at fails leaks
      have kept : ∀ r' ∈ acquired.map Prod.fst, t r' = s r' := by
        intro r' hr'
        exact moved.1 r' fun same => free (same ▸ hr')
      obtain ⟨u, run, others, back⟩ := @Held.run_release limits fault s₀ s acquired held t kept
      refine ⟨⟨_, List.mem_cons_self, fails⟩, e, u, ?_, ?_⟩
      · rw [program _ t raised, Program.run_bind', run]
        rfl
      · rw [held.restored_iff moved free others back, Recovers]
        have nothing : n = 0 ↔ (Leaks cfg limits fault r amount (s₀ r) → amount = 0) := by
          obtain ⟨leaks, rfl⟩ | ⟨kept, rfl⟩ := leaks
          · rw [Int.natCast_eq_zero]
            exact ⟨fun zero _ => zero, fun zero => zero leaks⟩
          · exact iff_of_true rfl fun leaks => absurd leaks kept
        rw [nothing]
        constructor
        · intro h
          exact ⟨fun _ => h, fun succeeds => absurd fails succeeds⟩
        · intro h
          exact h.1 fails
    · rw [here] at succeeds
      have rest : (acquired.map Prod.fst ++ todo.map Prod.fst).Nodup :=
        List.Nodup.sublist ((List.sublist_cons_self r _).append_left _) nodup
      have none : (limits r).isSome = false := by rw [unlimited]; rfl
      have same : granted cfg limits ((r, amount) :: todo) = granted cfg limits todo := by
        unfold granted
        rw [List.filter_cons_of_neg (by simp [unlimited])]
      rw [program _ s nothing, same]
      obtain ⟨all, t, held', run⟩ | ⟨⟨x, hx, fails⟩, e, t, run, iff⟩ := ih held rest
      · left
        exact ⟨List.forall_mem_cons.mpr ⟨succeeds, all⟩, t, held', run⟩
      · right
        refine ⟨⟨x, List.mem_cons_of_mem _ hx, fails⟩, e, t, run, ?_⟩
        rw [iff, Recovers, none]
        exact ⟨fun h => ⟨fun fails => absurd fails succeeds, fun _ => h⟩, fun h => h.2 succeeds⟩
    · rw [here] at succeeds
      have held' : Held s₀ t (acquired ++ [(r, ⟨amount, cfg.ttlSeconds r⟩)]) := held.snoc free moved
      have resources : (acquired ++ [(r, (⟨amount, cfg.ttlSeconds r⟩ : QuotaReservation))]).map
          Prod.fst = acquired.map Prod.fst ++ [r] := List.map_append
      have rest : ((acquired ++ [(r, (⟨amount, cfg.ttlSeconds r⟩ : QuotaReservation))]).map
          Prod.fst ++ todo.map Prod.fst).Nodup := by
        rw [resources, List.append_assoc]
        exact nodup
      have one : granted cfg limits ((r, amount) :: todo) =
          (r, ⟨amount, cfg.ttlSeconds r⟩) :: granted cfg limits todo := by
        unfold granted
        rw [List.filter_cons, if_pos limited, List.map_cons]
      rw [program _ t made, one]
      obtain ⟨all, u, held', run⟩ | ⟨⟨x, hx, fails⟩, e, u, run, iff⟩ := ih held' rest
      · left
        rw [List.append_assoc] at held' run
        exact ⟨List.forall_mem_cons.mpr ⟨succeeds, all⟩, u, held', run⟩
      · right
        refine ⟨⟨x, List.mem_cons_of_mem _ hx, fails⟩, e, u, run, ?_⟩
        rw [iff, Recovers, limited, resources]
        exact ⟨fun h => ⟨fun fails => absurd fails succeeds, fun _ => h⟩, fun h => h.2 succeeds⟩

/-- What is raised if the turn cannot be created, and what becomes of the counters. -/
theorem restores_created {s₀ s : State} {reserved : TurnReservations}
    (held : Held s₀ s reserved.all) :
  (∀ e t, ((performOp .createTurn).attempt >>= created reserved).run (exec limits fault) s =
      (.error e, t) → ∀ r, (t r).counter = (s₀ r).counter) ↔
    ∀ f ∈ fault, f.place = .createTurn → ∀ x ∈ reserved.all,
      if f.isFatal then x.2.amount = 0 else 0 ≤ (s₀ x.1).counter
  := by
  have program : ((performOp .createTurn).attempt >>= created reserved).run (exec limits fault) s =
      (created reserved (exec limits fault .createTurn s).1).run (exec limits fault)
        (exec limits fault .createTurn s).2 := by
    rw [Program.run_bind', Program.run_attempt, Program.andThen_ok]
    unfold performOp
    rw [Program.run_perform]
  rw [program]
  cases create : fault.filter (·.strikes .createTurn) with
  | none =>
    have free : ∀ f ∈ fault, f.place ≠ .createTurn := by
      intro f hf hplace
      exact Option.filter_eq_none_iff.mp create f hf (decide_eq_true hplace)
    refine iff_of_true ?_ fun f hf hplace => absurd hplace (free f hf)
    intro e t raised
    unfold exec at raised
    rw [create] at raised
    cases raised
  | some x =>
    obtain ⟨hx, struck⟩ := Option.filter_eq_some_iff.mp create
    have place : x.place = .createTurn := of_decide_eq_true struck
    have fails : exec limits fault .createTurn s = (.error x.raised, s) := by
      unfold exec
      rw [create]
    have one (P : Fault → Prop) : (∀ f ∈ fault, f.place = .createTurn → P f) ↔ P x := by
      constructor
      · intro h
        exact h x hx place
      · intro h f hf _
        cases hx.symm.trans hf
        exact h
    rw [fails, one]
    cases fatal : x.isFatal with
    | true =>
      have raised : x.raised = .fatal := if_pos fatal
      rw [raised]
      constructor
      · intro restores y hy
        have same := restores .fatal s rfl y.1
        rw [held.counter y hy] at same
        rw [if_pos rfl]
        omega
      · rintro none _ _ ⟨⟩ r
        by_cases hr : r ∈ reserved.all.map Prod.fst
        · obtain ⟨y, hy, rfl⟩ := List.mem_map.mp hr
          have zero := none y hy
          rw [if_pos rfl] at zero
          rw [held.counter y hy, zero]
          exact add_zero _
        · exact congrArg Store.counter (held.others r hr)
    | false =>
      have raised : x.raised = .exception := if_neg (by rw [fatal]; nofun)
      obtain ⟨u, run, others, back⟩ :=
        @Held.run_release limits fault s₀ s reserved.all held s fun _ _ => rfl
      have ends : (created reserved (.error x.raised)).run (exec limits fault) s =
          (.error .exception, u) := by
        rw [raised]
        change (release reserved.all >>= _).run _ s = _
        rw [Program.run_bind', run]
        rfl
      rw [ends]
      constructor
      · intro restores y hy
        have mem : y.1 ∈ reserved.all.map Prod.fst := List.mem_map_of_mem hy
        have same := restores _ u rfl y.1
        rw [if_neg nofun, ← same, back y.1 mem]
        exact le_max_left 0 _
      · rintro nonneg _ _ ⟨⟩ r
        by_cases hr : r ∈ reserved.all.map Prod.fst
        · obtain ⟨y, hy, rfl⟩ := List.mem_map.mp hr
          have positive := nonneg y hy
          rw [if_neg nofun] at positive
          rw [back y.1 hr]
          exact max_eq_right positive
        · rw [others r hr, held.others r hr]

theorem mem_granted {todo : List (TurnResource × ℕ)} {P : TurnResource → ℕ → Prop} :
  (∀ x ∈ granted cfg limits todo, P x.1 x.2.amount) ↔
    ∀ x ∈ todo, (limits x.1).isSome → P x.1 x.2
  := by
  unfold granted
  rw [List.forall_mem_map]
  constructor
  · intro h x hx limited
    exact h x (List.mem_filter.mpr ⟨hx, limited⟩)
  · intro h x hx
    obtain ⟨hx, limited⟩ := List.mem_filter.mp hx
    exact h x hx limited

theorem held_nil (s : State) : Held s s [] :=
  ⟨List.nodup_nil, fun _ _ => rfl, nofun⟩

theorem nodup_amounts (question : Text) : ((amounts cfg question).map Prod.fst).Nodup := by
  change [TurnResource.messagesDay, .tokensMonth, .streams].Nodup
  decide

/-- `reserve`: everything is held, or it raises and the counters have their values again exactly
under the condition. -/
theorem run_reserve (question : Text) (s : State) :
  ((∀ x ∈ amounts cfg question, ¬ Fails cfg limits fault x.1 x.2 (s x.1)) ∧
    ∃ t, Held s t (granted cfg limits (amounts cfg question)) ∧
      (reserve cfg question).run (exec limits fault) s =
        (.ok (.of (granted cfg limits (amounts cfg question))), t)) ∨
  ((∃ x ∈ amounts cfg question, Fails cfg limits fault x.1 x.2 (s x.1)) ∧
    ∃ e t, (reserve cfg question).run (exec limits fault) s = (.error e, t) ∧
      ((∀ r, (t r).counter = (s r).counter) ↔
        Recovers cfg limits fault s [] (amounts cfg question)))
  := by
  have program : (reserve cfg question).run (exec limits fault) s =
      Program.andThen (exec limits fault) _
        ((acquire cfg [] (amounts cfg question)).run (exec limits fault) s) :=
    Program.run_bind' _ _ _ _
  rw [program]
  obtain ⟨all, t, held, run⟩ | ⟨fails, e, t, run, iff⟩ :=
    @run_acquire cfg limits fault s s [] (held_nil s) (amounts cfg question)
      (nodup_amounts cfg question)
  · left
    refine ⟨all, t, held, ?_⟩
    rw [run]
    rfl
  · right
    refine ⟨fails, e, t, ?_, iff⟩
    rw [run]
    rfl

end Reservation

/-- `reserve` leaves every counter as it was when it raises, exactly if the reservation that raises
has not increased its counter and the counters acquired before were not negative; and `startTurn`
does so exactly if moreover the turn fails with an `Exception`. -/
theorem turn_restores_iff (question content : Text) (s : State) :
  (Restores limits fault (reserve cfg question) s ↔
    Recovers cfg limits fault s [] (amounts cfg question)) ∧
  (Restores limits fault (startTurn cfg content) s ↔
    (strip content ≠ [] → Recovers cfg limits fault s [] (amounts cfg (strip content)) ∧
      RecoversTurn cfg limits fault s (amounts cfg (strip content))))
  := by
  constructor
  · obtain ⟨all, t, -, run⟩ | ⟨fails, e, t, run, iff⟩ :=
      @run_reserve cfg limits fault question s
    · refine iff_of_true ?_ (recovers_of_not_fails cfg all [])
      intro e u raised
      cases run.symm.trans raised
    · rw [← iff]
      constructor
      · intro restores
        exact restores e t run
      · intro same e' u raised
        cases run.symm.trans raised
        exact same
  · by_cases empty : strip content = []
    · refine iff_of_true ?_ fun nonempty => absurd empty nonempty
      intro e t raised
      have program : startTurn cfg content = .raise .emptyMessage := if_pos empty
      rw [program] at raised
      cases raised
      exact fun _ => rfl
    · have program : startTurn cfg content = _ := if_neg empty
      rw [program]
      obtain ⟨all, t, held, run⟩ | ⟨⟨x, hx, fails⟩, e, t, run, iff⟩ :=
        @run_reserve cfg limits fault (strip content) s
      · have recovers := recovers_of_not_fails cfg all []
        have turn : RecoversTurn cfg limits fault s (amounts cfg (strip content)) ↔
            ∀ f ∈ fault, f.place = .createTurn → ∀ x ∈ amounts cfg (strip content),
              (limits x.1).isSome → if f.isFatal then x.2 = 0 else 0 ≤ (s x.1).counter :=
          ⟨fun h => h all, fun h _ => h⟩
        rw [and_iff_right recovers, turn, forall_prop_of_true empty]
        generalize amounts cfg (strip content) = todo at *
        have granting : (∀ f ∈ fault, f.place = .createTurn → ∀ x ∈ granted cfg limits todo,
              if f.isFatal then x.2.amount = 0 else 0 ≤ (s x.1).counter) ↔
            ∀ f ∈ fault, f.place = .createTurn → ∀ x ∈ todo, (limits x.1).isSome →
              if f.isFatal then x.2 = 0 else 0 ≤ (s x.1).counter := by
          refine forall_congr' fun f => imp_congr_right fun _ => imp_congr_right fun _ => ?_
          exact mem_granted cfg (P := fun r amount =>
            if f.isFatal then amount = 0 else 0 ≤ (s r).counter)
        rw [← granting]
        have whole := @restores_created limits fault s t (.of (granted cfg limits todo)) held
        apply Iff.trans _ whole
        unfold Restores
        rw [Program.run_bind', run]
        rfl
      · have recovers : RecoversTurn cfg limits fault s (amounts cfg (strip content)) :=
          fun none => absurd fails (none x hx)
        rw [and_iff_left recovers, ← iff]
        constructor
        · intro restores _
          apply restores e t
          rw [Program.run_bind', run]
          rfl
        · intro same e' u raised
          rw [Program.run_bind', run] at raised
          cases raised
          exact same empty

/-- When the expiry of the first counter cannot be set, its increment stays. -/
theorem expiry_leaks :
  let fault : Fault := ⟨.reserving .messagesDay .expire, false⟩
  let p := reserve ⟨[80, 100], 2000, fun _ => 86400⟩ ['H', 'i']
  ¬ Restores (fun _ => some 100000) (some fault) p (fun _ => {})
  := by
  intro fault p restores
  have fails : (p.run (exec (fun _ => some 100000) (some fault)) fun _ => {}).1.isOk = false := by
    decide +kernel
  have counter : ((p.run (exec (fun _ => some 100000) (some fault)) fun _ => {}).2
      .messagesDay).counter = 1 := by
    decide +kernel
  rcases hrun : p.run (exec (fun _ => some 100000) (some fault)) fun _ => {} with ⟨e | a, t⟩
  · rw [hrun] at counter
    cases counter.symm.trans (restores e t hrun .messagesDay)
  · rw [hrun] at fails
    cases fails

end Lumina.Conversations.TurnBudget
