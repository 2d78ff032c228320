import Lumina.Chat.Generate
import Lumina.Gateway.Shape
import Mathlib.Data.Int.Notation

/-!
# The three ledgers of a turn

A turn is accounted for in three places: on the counter of the token quota, in the usage log,
and in the usage stored with the message.  `Books` is what they say after some operations have
taken effect.  Redis and the database do not fail here; what may fail is the preparation of the
turn, the gateway and the closing of its stream, as `Faults` says.

How the books end depends on how the turn ends: `ending` reads that off the deltas of the
gateway and the faults.
-/

namespace Lumina.Chat

open Gateway Await

/-! ### The ledgers -/

/-- The tokens of a usage that may be missing. -/
def tokens (u : Option Usage) : ℕ :=
  (u.map Usage.total).getD 0

/-- `QuotaService.commit`: correct the reservation to the actual amount.  A counter that would
become negative is set to zero. -/
def correctCounter (r : QuotaReservation) (actual counter : ℕ) : ℕ :=
  if actual = r.amount then counter else counter + actual - r.amount

/-- `QuotaService.release`: give the reservation back. -/
def releaseCounter (r : QuotaReservation) (counter : ℕ) : ℕ :=
  counter - r.amount

/-- `TurnBudget.settle_tokens`, on the counter. -/
def settleCounter (r : QuotaReservation) (u : Option Usage) (counter : ℕ) : ℕ :=
  match u with
  | some u => correctCounter r u.total counter
  | none => releaseCounter r counter

/-- What the ledgers say: the counter of the quota, the tokens in the usage log for a message,
and the tokens stored with the message. -/
structure Books where
  counter : ℕ
  logged : ℕ
  stored : ℕ
deriving DecidableEq

namespace Books

/-- The books after an operation that takes effect. -/
def post (messageId : ℕ) (b : Books) : Op → Books
  | .persist row => { b with stored := tokens row.usage }
  | .record e =>
      if e.category = "llm" ∧ e.requestId = messageId then
        { b with logged := b.logged + (e.promptTokens + e.completionTokens) }
      else b
  | .commit r actual => { b with counter := correctCounter r actual b.counter }
  | .release r => { b with counter := releaseCounter r b.counter }
  | _ => b

/-- The books before the generation: the reservation is on the counter, on top of `base`. -/
def opening (base : ℕ) (r : QuotaReservation) : Books where
  counter := base + r.amount
  logged := 0
  stored := 0

/-- The books after some operations. -/
def after (messageId : ℕ) (b : Books) (ops : List Op) : Books :=
  ops.foldl (post messageId) b

/-- The three ledgers agree on a turn that found `base` on the counter. -/
def Agree (b : Books) (base : ℕ) : Prop :=
  (b.counter : ℤ) - base = b.logged ∧ b.logged = b.stored

instance (b : Books) (base : ℕ) : Decidable (b.Agree base) :=
  inferInstanceAs (Decidable (_ ∧ _))

end Books

/-! ### Faults outside the storage -/

/-- The exceptions of a run in which Redis and the database do not fail: of the preparation, of
the construction of the gateway, of the wait for the `n`-th delta, and of closing the stream. -/
structure Faults where
  compose : Option Exn := none
  buildGateway : Option Exn := none
  next : ℕ → Option Exn := fun _ => none
  close : Option Exn := none

/-- How many deltas have been waited for. -/
def waits (log : Log) : ℕ :=
  log.countP (·.op = .next)

/-- The oracle of a run with the given faults. -/
def Faults.oracle (f : Faults) : Oracle Op Site Exn :=
  fun log op =>
    let raises (e : Option Exn) : Fault Exn := (e.map .before).getD .none
    match op with
    | .compose => raises f.compose
    | .buildGateway => raises f.buildGateway
    | .next => raises (f.next (waits log))
    | .closeStream => raises f.close
    | _ => .none

/-- How the loop over the deltas ends: with the end of the answer, an error of the gateway, a
stop, or an exception, each with the usage known by then; or, for a stream that just stops,
not at all. -/
inductive Exit where
  | done (u : Option Usage)
  | errorDelta (u : Option Usage)
  | stopped
  | raised (u : Option Usage)
  | unfinished

/-- Whether the turn is stopped at a delta, and the time of the last question whether to stop. -/
def polled (a : Arrival) (checked : ℕ) : Bool × ℕ :=
  if checked + stopPollMs ≤ a.time then (a.stop, a.time) else (false, checked)

/-- How the loop ends, from the `n`-th delta on. -/
def scan (f : Faults) (ending : Option Exn) :
    List Arrival → (n : ℕ) → (checked : ℕ) → Option Usage → Exit
  | [], n, _, u =>
      if (f.next n).isSome || ending.isSome then .raised u else .unfinished
  | a :: rest, n, checked, u =>
      if (f.next n).isSome then .raised u
      else
        let polled := polled a checked
        if polled.1 then (if f.close.isSome then .raised u else .stopped)
        else match a.delta with
          | .error _ => .errorDelta u
          | .provided (.done _) => .done u
          | .provided (.usage u) => scan f ending rest (n + 1) polled.2 (some (.ofDelta u))
          | .provided _ => scan f ending rest (n + 1) polled.2 u

/-- How a turn ends. -/
def ending (f : Faults) (script : Script) : Exit :=
  if f.compose.isSome || f.buildGateway.isSome then .raised none
  else scan f script.ending script.arrivals 0 script.startedAt none

/-- The ends after which the books agree.  A turn that fails must not have used any tokens; and
where closing the stream raises after the turn was finalised, so that it is finalised again, a
second settlement must leave the counter as it is. -/
def Exit.Accountable (close : Option Exn) (r : QuotaReservation) (base : ℕ) : Exit → Prop
  | .done u =>
      close = none ∨ settleCounter r u (base + tokens u) = base + tokens u
  | .errorDelta u => tokens u = 0 ∧ (close = none ∨ settleCounter r u base = base)
  | .stopped => True
  | .raised u => tokens u = 0
  | .unfinished => False

/-! ### The books along a generation -/

section Specs

variable {f : Faults} {turn : TurnStarted} {r : QuotaReservation} {b b₀ : Books} {v : Vars}
variable {n : ℕ} {site : Site} {op : Op}

/-- The world of a generation that opened its books with `b₀`: its books are `b`, its variables
are `v`, and it has waited for `n` deltas. -/
structure Standing (turn : TurnStarted) (b₀ b : Books) (v : Vars) (n : ℕ)
    (w : World Op Site Exn Vars) : Prop where
  books : b₀.after turn.messageId (effects w.log) = b
  vars : w.vars = v
  waited : waits w.log = n

/-- The operations of Redis and of the database. -/
def Op.isStorage : Op → Bool
  | compose | buildGateway | next | closeStream => false
  | _ => true

theorem Faults.oracle_of_isStorage (h : op.isStorage = true) (log : Log) :
  f.oracle log op = .none
  := by
  cases op
  all_goals first | rfl | simp [Op.isStorage] at h

theorem Books.after_append (b : Books) (messageId : ℕ) (ops ops' : List Op) :
  b.after messageId (ops ++ ops') = (b.after messageId ops).after messageId ops'
  := List.foldl_append

/-- An operation of the storage takes effect. -/
theorem storage_spec (op : Op) (h : op.isStorage = true) :
  Triple f.oracle (Standing turn b₀ b v n) (perform site op)
    (fun r w => r = .ok () ∧ Standing turn b₀ (b.post turn.messageId op) v n w)
  := by
  apply Triple.perform_of_fault
  rintro w ⟨books, vars, waited⟩
  rw [f.oracle_of_isStorage h]
  use rfl
  constructor
  · rw [effects_append, Books.after_append, books]
    rfl
  · exact vars
  · have : op ≠ .next := by
      rintro rfl
      cases h
    simp [waits, ← waited, this]

theorem settleTokens_books (h : turn.tokenReservation = some r) (u : Option Usage) :
  Triple f.oracle (Standing turn b₀ b v n) (settleTokens site turn.tokenReservation u)
    (fun r' w => r' = .ok () ∧
      Standing turn b₀ { b with counter := settleCounter r u b.counter } v n w)
  := by
  rw [h]
  cases u
  all_goals exact storage_spec _ rfl

theorem emitCitations_books (prepared : Option PreparedTurn) (citations : List Citation) :
  Triple f.oracle (Standing turn b₀ b v n) (emitCitations site prepared citations)
    (fun r w => r = .ok () ∧ Standing turn b₀ b v n w)
  := by
  unfold emitCitations
  split
  · exact storage_spec _ rfl
  · exact Triple.pure fun w h => ⟨rfl, h⟩

theorem recordUsage_books (model : String) (u : Option Usage) :
  Triple f.oracle (Standing turn b₀ b v n) (recordUsage site turn model u)
    (fun r w => r = .ok () ∧ Standing turn b₀ { b with logged := b.logged + tokens u } v n w)
  := by
  cases u with
  | none => exact Triple.pure fun w h => ⟨rfl, h⟩
  | some u =>
    apply (storage_spec (.record (usageEvent turn model u)) rfl).conseq fun _ h => h
    rintro r w ⟨ok, h⟩
    use ok
    simpa [Books.post, usageEvent, tokens, Usage.total] using h

theorem guarded_books {m : ChatM Unit} {P P' : World Op Site Exn Vars → Prop}
    (h : Triple f.oracle P m fun r w => r = .ok () ∧ P' w) :
  Triple f.oracle P (guarded m) fun r w => r = .ok () ∧ P' w
  := by
  apply Triple.handle h
  · rintro ⟨⟩ w h
    exact h
  · intro e
    constructor
    rintro w ⟨absurd, -⟩
    cases absurd

/-- A completed turn is on all three books. -/
theorem complete_books (h : turn.tokenReservation = some r) (inTry : Bool) (v' : Vars)
    (finishReason : String) (u : Option Usage) (status : MessageStatus) :
  Triple f.oracle (Standing turn b₀ b v n) (complete turn inTry v' finishReason u status)
    (fun r' w => r' = .ok () ∧
      Standing turn b₀
        ⟨settleCounter r u b.counter, b.logged + tokens u, tokens u⟩ v n w)
  := by
  apply Triple.bind_ok (storage_spec _ rfl)
  apply guarded_books
  apply Triple.bind_ok (recordUsage_books v'.model u)
  apply Triple.bind_ok (settleTokens_books h u)
  apply Triple.bind_ok (emitCitations_books v'.prepared _)
  apply Triple.bind_ok (storage_spec _ rfl)
  exact storage_spec _ rfl

/-- A failed turn is on the counter and stored with the message, and not in the usage log. -/
theorem fail_books (h : turn.tokenReservation = some r) (inTry : Bool) (v' : Vars)
    (failure : Failure) :
  Triple f.oracle (Standing turn b₀ b v n) (fail turn inTry v' failure)
    (fun r' w => r' = .ok () ∧
      Standing turn b₀
        ⟨settleCounter r v'.usage b.counter, b.logged, tokens v'.usage⟩ v n w)
  := by
  apply Triple.bind_ok (storage_spec _ rfl)
  apply guarded_books
  apply Triple.bind_ok (settleTokens_books h v'.usage)
  apply Triple.bind_ok (emitCitations_books v'.prepared _)
  apply Triple.bind_ok (storage_spec _ rfl)
  exact storage_spec _ rfl

/-- What an operation outside the storage does: nothing to the books, and its fault. -/
theorem other_spec (op : Op) (raises : Option Exn) (hop : op.isStorage = false)
    (h : ∀ log, waits log = n → f.oracle log op = (raises.map .before).getD .none) :
  Triple f.oracle (Standing turn b₀ b v n) (perform site op)
    (fun r w => r = outcome raises ∧
      Standing turn b₀ b v (n + if op = .next then 1 else 0) w)
  := by
  have posts : ∀ b : Books, b.post turn.messageId op = b := by
    intro b
    cases op
    all_goals first | rfl | cases hop
  apply Triple.perform_of_fault
  rintro w ⟨books, vars, waited⟩
  rw [h w.log waited]
  cases raises with
  | none =>
    use rfl
    constructor
    · change b₀.after turn.messageId (effects (w.log ++ [_])) = b
      rw [effects_append, Books.after_append, books]
      exact posts b
    · exact vars
    · simp only [waits, List.countP_append, ← waited]
      split
      all_goals simp_all
  | some e =>
    use rfl
    constructor
    · change b₀.after turn.messageId (effects (w.log ++ [_])) = b
      rw [effects_append, Books.after_append, books]
      rfl
    · exact vars
    · simp only [waits, List.countP_append, ← waited]
      split
      all_goals simp_all

theorem modify_books (g : Vars → Vars) :
  Triple f.oracle (Standing turn b₀ b v n) (modify g)
    (fun r w => r = .ok () ∧ Standing turn b₀ b (g v) n w)
  := by
  constructor
  rintro w ⟨books, rfl, waited⟩
  exact ⟨rfl, books, rfl, waited⟩

theorem get_books {g : Vars → ChatM Unit} {Q : Except Exn Unit → World Op Site Exn Vars → Prop}
    (h : Triple f.oracle (Standing turn b₀ b v n) (g v) Q) :
  Triple f.oracle (Standing turn b₀ b v n) (get >>= g) Q
  := by
  apply Triple.get_bind
  intro v'
  constructor
  rintro w ⟨standing, rfl⟩
  obtain rfl := standing.vars
  exact h.sound w standing

/-- Waiting for a delta that arrives. -/
theorem next_books (h : f.next n = none) :
  Triple f.oracle (Standing turn b₀ b v n) next
    (fun r w => r = .ok () ∧ Standing turn b₀ b { v with suspended := true } (n + 1) w)
  := by
  apply Triple.bind_ok (modify_books _)
  apply Triple.bind_ok
  · apply other_spec .next none rfl
    intro log waited
    simp [Faults.oracle, waited, h]
  · exact modify_books _

/-- Waiting for a delta, when the wait raises. -/
theorem next_raises {e : Exn} (h : f.next n = some e) :
  Triple f.oracle (Standing turn b₀ b v n) next
    (fun r w => r = .error e ∧ Standing turn b₀ b { v with suspended := false } (n + 1) w)
  := by
  apply Triple.bind_ok (modify_books _)
  apply Triple.bind
  · apply other_spec .next (some e) rfl
    intro log waited
    simp [Faults.oracle, waited, h]
  · rintro ⟨⟩
    constructor
    rintro w ⟨absurd, -⟩
    cases absurd
  · rintro e' w ⟨eq, standing⟩
    exact ⟨eq, standing⟩

/-- Closing a suspended stream. -/
theorem closeStream_books (h : v.suspended = true) :
  Triple f.oracle (Standing turn b₀ b v n) closeStream
    (fun r w => r = outcome f.close ∧
      Standing turn b₀ b { v with suspended := false } n w)
  := by
  apply get_books
  rw [if_pos h]
  apply Triple.bind_ok (modify_books _)
  apply other_spec .closeStream _ rfl
  intro log waited
  rfl

/-- Closing a stream that has ended or has been closed. -/
theorem closeStream_books_of_not_suspended (h : v.suspended = false) :
  Triple f.oracle (Standing turn b₀ b v n) closeStream
    (fun r w => r = .ok () ∧ Standing turn b₀ b v n w)
  := by
  apply get_books
  rw [if_neg (by simp [h])]
  exact Triple.pure fun w standing => ⟨rfl, standing⟩

theorem pollStop_books (a : Arrival) (checked : ℕ) :
  Triple f.oracle (Standing turn b₀ b v n) (pollStop a checked)
    (fun r w => r = .ok (polled a checked) ∧ Standing turn b₀ b v n w)
  := by
  unfold pollStop polled
  split
  · apply Triple.bind_ok (storage_spec _ rfl)
    exact Triple.pure fun w h => ⟨rfl, h⟩
  · exact Triple.pure fun w h => ⟨rfl, h⟩

/-- The variables after a delta that does not end the answer. -/
def Vars.deliver (v : Vars) : ProviderDelta → Vars
  | .text δ => { v with text := v.text ++ [δ.text] }
  | .usage u =>
      { v with
        model := if u.model = "" then v.model else u.model
        usage := some (.ofDelta u) }
  | _ => v

theorem deliver_books (δ : ProviderDelta) :
  Triple f.oracle (Standing turn b₀ b v n) (deliver δ)
    (fun r w => r = .ok () ∧ Standing turn b₀ b (v.deliver δ) n w)
  := by
  cases δ with
  | text δ =>
    apply Triple.bind_ok (modify_books _)
    exact storage_spec _ rfl
  | usage u =>
    apply Triple.bind_ok (modify_books _)
    exact storage_spec _ rfl
  | toolCall δ => exact storage_spec _ rfl
  | done δ => exact Triple.pure fun w h => ⟨rfl, h⟩

/-- What the loop over the deltas leaves, from its end. -/
def Reached (turn : TurnStarted) (b₀ : Books) (r : QuotaReservation) :
    Exit → Except Exn Unit → World Op Site Exn Vars → Prop
  | .done u, r', w => r' = .ok () ∧ ∃ v n, v.usage = u ∧ v.suspended = true ∧
      Standing turn b₀
        ⟨settleCounter r u b₀.counter, b₀.logged + tokens u, tokens u⟩ v n w
  | .errorDelta u, r', w => r' = .ok () ∧ ∃ v n, v.usage = u ∧ v.suspended = true ∧
      Standing turn b₀ ⟨settleCounter r u b₀.counter, b₀.logged, tokens u⟩ v n w
  | .stopped, r', w => r' = .ok () ∧ ∃ v n u, v.suspended = false ∧
      Standing turn b₀
        ⟨settleCounter r u b₀.counter, b₀.logged + tokens u, tokens u⟩ v n w
  | .raised u, r', w => (∃ e, r' = .error e) ∧ ∃ v n, v.usage = u ∧ v.suspended = false ∧
      Standing turn b₀ b₀ v n w
  | .unfinished, _, _ => True

theorem stopTurn_books (h : turn.tokenReservation = some r) (hv : v.suspended = true) :
  Triple f.oracle (Standing turn b₀ b₀ v n) (stopTurn turn)
    (Reached turn b₀ r (if f.close.isSome then .raised v.usage else .stopped))
  := by
  unfold stopTurn
  cases hclose : f.close with
  | none =>
    apply Triple.bind_ok
    · have closed : Triple f.oracle (Standing turn b₀ b₀ v n) closeStream _ :=
        closeStream_books hv
      rw [hclose] at closed
      exact closed
    · apply get_books
      apply (complete_books h true _ _ _ _).conseq fun _ h => h
      rintro r' w ⟨ok, standing⟩
      exact ⟨ok, _, _, _, rfl, standing⟩
  | some e =>
    apply (closeStream_books hv).bind
    · rintro ⟨⟩
      constructor
      rintro w ⟨absurd, -⟩
      rw [hclose] at absurd
      cases absurd
    · rintro e' w ⟨-, standing⟩
      exact ⟨⟨e', rfl⟩, { v with suspended := false }, n, rfl, rfl, standing⟩

/-- The loop over the deltas ends as `scan` says. -/
theorem consume_books (h : turn.tokenReservation = some r) (ending : Option Exn)
    (arrivals : List Arrival) (checked : ℕ) :
  Triple f.oracle (Standing turn b₀ b₀ v n) (consume turn ending arrivals checked)
    (Reached turn b₀ r (scan f ending arrivals n checked v.usage))
  := by
  induction arrivals generalizing v n checked with
  | nil =>
    unfold consume
    apply Triple.bind_ok (modify_books _)
    cases hnext : f.next n with
    | none =>
      apply Triple.bind_ok
      · apply other_spec .next none rfl
        intro log waited
        simp [Faults.oracle, waited, hnext]
      · cases ending with
        | none =>
          apply Triple.pure
          intro w _
          simp [scan, hnext, Reached]
        | some e =>
          apply Triple.raise
          intro w standing
          simp only [scan, hnext, Option.isSome_some, Option.isSome_none, Bool.or_true, if_true]
          exact ⟨⟨e, rfl⟩, { v with suspended := false }, _, rfl, rfl, standing⟩
    | some e =>
      apply Triple.bind
      · apply other_spec .next (some e) rfl
        intro log waited
        simp [Faults.oracle, waited, hnext]
      · rintro ⟨⟩
        constructor
        rintro w ⟨absurd, -⟩
        cases absurd
      · rintro e' w ⟨-, standing⟩
        simp only [scan, hnext, Option.isSome_some, Bool.true_or, if_true]
        exact ⟨⟨e', rfl⟩, { v with suspended := false }, _, rfl, rfl, standing⟩
  | cons a rest ih =>
    unfold consume scan
    cases hnext : f.next n with
    | some e =>
      apply (next_raises hnext).bind
      · rintro ⟨⟩
        constructor
        rintro w ⟨absurd, -⟩
        cases absurd
      · rintro e' w ⟨-, standing⟩
        exact ⟨⟨e', rfl⟩, { v with suspended := false }, _, rfl, rfl, standing⟩
    | none =>
      apply Triple.bind_ok (next_books hnext)
      apply Triple.bind_ok (pollStop_books a checked)
      simp only [Option.isSome_none, Bool.false_eq_true, if_false]
      split
      · exact stopTurn_books h rfl
      · cases a.delta with
        | error δ =>
          apply get_books
          apply (fail_books h true _ _).conseq fun _ h => h
          rintro r' w ⟨ok, standing⟩
          exact ⟨ok, { v with suspended := true }, _, rfl, rfl, standing⟩
        | provided δ =>
          cases δ with
          | done δ =>
            apply get_books
            apply (complete_books h true _ _ _ _).conseq fun _ h => h
            rintro r' w ⟨ok, standing⟩
            exact ⟨ok, { v with suspended := true }, _, rfl, rfl, standing⟩
          | text δ =>
            apply Triple.bind_ok (deliver_books _)
            exact ih _
          | usage u =>
            apply Triple.bind_ok (deliver_books _)
            exact ih _
          | toolCall δ =>
            apply Triple.bind_ok (deliver_books _)
            exact ih _

theorem onException_books (h : turn.tokenReservation = some r) (e : Exn) :
  Triple f.oracle (Standing turn b₀ b v n) (onException turn e)
    (fun _ w => Standing turn b₀ ⟨settleCounter r v.usage b.counter, b.logged, tokens v.usage⟩ v n w)
  := by
  apply get_books
  cases e with
  | cancelled =>
    apply Triple.bind_ok (guarded_books (fail_books h false v _))
    exact Triple.raise fun w standing => standing
  | provider e =>
    exact (fail_books h false v _).conseq (fun _ h => h) fun _ _ h => h.2
  | other name =>
    exact (fail_books h false v _).conseq (fun _ h => h) fun _ _ h => h.2

/-- The books at the end of a turn, from the end of the loop. -/
def Exit.closing (close : Option Exn) (r : QuotaReservation) (b₀ : Books) : Exit → Books → Prop
  | .done u, b =>
      let first := settleCounter r u b₀.counter
      b = ⟨if close.isSome then settleCounter r u first else first, b₀.logged + tokens u, tokens u⟩
  | .errorDelta u, b =>
      let first := settleCounter r u b₀.counter
      b = ⟨if close.isSome then settleCounter r u first else first, b₀.logged, tokens u⟩
  | .stopped, b => ∃ u, b = ⟨settleCounter r u b₀.counter, b₀.logged + tokens u, tokens u⟩
  | .raised u, b => b = ⟨settleCounter r u b₀.counter, b₀.logged, tokens u⟩
  | .unfinished, _ => True

/-- The books that `fail` leaves. -/
def Books.failed (b : Books) (r : QuotaReservation) (u : Option Usage) : Books :=
  ⟨settleCounter r u b.counter, b.logged, tokens u⟩

/-- What holds after the body of the `try`: the turn is at its end, or it is there once the
handlers have finalised it. -/
def Pending (turn : TurnStarted) (f : Faults) (r : QuotaReservation) (b₀ : Books) (exit : Exit)
    (r' : Except Exn Unit) (w : World Op Site Exn Vars) : Prop :=
  ∃ b v n, Standing turn b₀ b v n w ∧
    match r' with
    | .ok _ => exit.closing f.close r b₀ b
    | .error _ => exit.closing f.close r b₀ (b.failed r v.usage)

theorem closeStream_pending (exit : Exit) (r' : Except Exn Unit)
    (finished : exit ≠ .unfinished) :
  Triple f.oracle (Reached turn b₀ r exit r') closeStream
    (fun r'' w => Pending turn f r b₀ exit (cleanup r' r'') w)
  := by
  constructor
  intro w reached
  cases exit with
  | unfinished => contradiction
  | done u =>
    obtain ⟨rfl, v, n, rfl, suspended, standing⟩ := reached
    obtain ⟨eq, standing⟩ := (closeStream_books (f := f) suspended).sound w standing
    rw [eq]
    refine ⟨_, _, _, standing, ?_⟩
    cases hclose : f.close with
    | none => simp [outcome, cleanup, Exit.closing]
    | some e => simp [outcome, cleanup, Exit.closing, Books.failed]
  | errorDelta u =>
    obtain ⟨rfl, v, n, rfl, suspended, standing⟩ := reached
    obtain ⟨eq, standing⟩ := (closeStream_books (f := f) suspended).sound w standing
    rw [eq]
    refine ⟨_, _, _, standing, ?_⟩
    cases hclose : f.close with
    | none => simp [outcome, cleanup, Exit.closing]
    | some e => simp [outcome, cleanup, Exit.closing, Books.failed]
  | stopped =>
    obtain ⟨rfl, v, n, u, suspended, standing⟩ := reached
    obtain ⟨eq, standing⟩ :=
      (closeStream_books_of_not_suspended (f := f) suspended).sound w standing
    rw [eq]
    exact ⟨_, _, _, standing, u, rfl⟩
  | raised u =>
    obtain ⟨⟨e, rfl⟩, v, n, rfl, suspended, standing⟩ := reached
    obtain ⟨eq, standing⟩ :=
      (closeStream_books_of_not_suspended (f := f) suspended).sound w standing
    rw [eq]
    exact ⟨_, _, _, standing, rfl⟩

/-- A fault of an operation before the loop fails the turn. -/
theorem inTry_raises {e : Exn} {k : Unit → ChatM Unit} (hop : op.isStorage = false)
    (h : ∀ log, f.oracle log op = .before e) (hv : v.usage = none) :
  Triple f.oracle (Standing turn b₀ b₀ v n) (inTry op >>= k)
    (Pending turn f r b₀ (.raised none))
  := by
  apply (other_spec op (some e) hop fun log _ => h log).bind
  · rintro ⟨⟩
    constructor
    rintro w ⟨absurd, -⟩
    cases absurd
  · rintro e' w ⟨-, standing⟩
    refine ⟨_, _, _, standing, ?_⟩
    simp [Exit.closing, Books.failed, hv]

theorem generateBody_books (h : turn.tokenReservation = some r) (script : Script)
    (finished : ending f script ≠ .unfinished) :
  Triple f.oracle (Standing turn b₀ b₀ { model := turn.model } 0) (generateBody turn script)
    (Pending turn f r b₀ (ending f script))
  := by
  unfold generateBody
  cases hcompose : f.compose with
  | some e =>
    rw [ending, hcompose]
    apply inTry_raises (e := e) rfl
    · intro log
      simp [Faults.oracle, hcompose]
    · rfl
  | none =>
    apply Triple.bind_ok
    · apply other_spec .compose none rfl
      intro log _
      simp [Faults.oracle, hcompose]
    apply Triple.bind_ok (modify_books _)
    apply Triple.bind_ok (storage_spec _ rfl)
    cases hbuild : f.buildGateway with
    | some e =>
      rw [ending, hcompose, hbuild]
      apply inTry_raises (e := e) rfl
      · intro log
        simp [Faults.oracle, hbuild]
      · rfl
    | none =>
      apply Triple.bind_ok
      · apply other_spec .buildGateway none rfl
        intro log _
        simp [Faults.oracle, hbuild]
      rw [ending, hcompose, hbuild] at finished ⊢
      apply Triple.ensure
      · exact consume_books h script.ending script.arrivals script.startedAt
      · intro r'
        exact closeStream_pending _ r' finished

theorem generateInner_books (h : turn.tokenReservation = some r) (script : Script)
    (finished : ending f script ≠ .unfinished) :
  Triple f.oracle (Standing turn b₀ b₀ { model := turn.model } 0) (generateInner turn script)
    (fun _ w => (ending f script).closing f.close r b₀
      (b₀.after turn.messageId (effects w.log)))
  := by
  apply Triple.handle (generateBody_books h script finished)
  · rintro ⟨⟩ w ⟨b, v, n, standing, closing⟩
    rw [standing.books]
    exact closing
  · intro e
    constructor
    rintro w ⟨b, v, n, standing, closing⟩
    have final := (onException_books (f := f) h e).sound w standing
    rw [final.books]
    exact closing

/-- The books of a whole generation. -/
theorem generateLog_books (h : turn.tokenReservation = some r) (script : Script)
    (finished : ending f script ≠ .unfinished) :
  (ending f script).closing f.close r b₀
    (b₀.after turn.messageId (effects (generateLog turn script f.oracle)))
  := by
  have start : Standing turn b₀ b₀ { model := turn.model } 0 ⟨{ model := turn.model }, []⟩ :=
    ⟨rfl, rfl, rfl⟩
  have whole : Triple f.oracle (Standing turn b₀ b₀ { model := turn.model } 0)
      (generate turn script)
      (fun _ w => (ending f script).closing f.close r b₀
        (b₀.after turn.messageId (effects w.log))) := by
    apply Triple.ensure (generateInner_books h script finished)
    intro _
    cases turn.streamReservation with
    | none => exact Triple.pure fun _ h => h
    | some reservation =>
      apply Triple.perform_of_fault
      intro w closing
      rw [f.oracle_of_isStorage rfl, effects_append, Books.after_append]
      exact closing
  exact whole.sound _ start

end Specs

/-! ### Agreement -/

/-- The first settlement turns the reservation into the tokens used. -/
theorem settleCounter_opening (r : QuotaReservation) (u : Option Usage) (base : ℕ) :
  settleCounter r u (base + r.amount) = base + tokens u
  := by
  cases u with
  | none => simp [settleCounter, releaseCounter, tokens]
  | some u =>
    simp only [settleCounter, correctCounter, tokens, Option.map_some, Option.getD_some]
    split
    all_goals omega

/-- Books on which everything but the counter is as it should be. -/
theorem Books.agree_iff_counter {counter used base : ℕ} :
  Books.Agree ⟨counter, 0 + used, used⟩ base ↔ counter = base + used
  := by
  constructor
  · rintro ⟨charged, -⟩
    simp only at charged
    omega
  · rintro rfl
    constructor
    · simp only
      omega
    · apply Nat.zero_add

/-- Books without an entry in the usage log. -/
theorem Books.agree_iff_unused {counter used base : ℕ} :
  Books.Agree ⟨counter, 0, used⟩ base ↔ used = 0 ∧ counter = base
  := by
  constructor
  · rintro ⟨charged, stored⟩
    simp only at charged stored
    omega
  · rintro ⟨rfl, rfl⟩
    constructor
    · simp
    · rfl

/-- The books agree at the end of a turn exactly if the turn is accountable. -/
theorem Exit.agree_iff {close : Option Exn} {r : QuotaReservation} {base : ℕ} {exit : Exit}
    {b : Books} (finished : exit ≠ .unfinished)
    (h : exit.closing close r (.opening base r) b) :
  b.Agree base ↔ exit.Accountable close r base
  := by
  cases exit with
  | unfinished => contradiction
  | stopped =>
    obtain ⟨u, rfl⟩ := h
    rw [Books.opening, settleCounter_opening, Books.agree_iff_counter]
    simp [Exit.Accountable]
  | raised u =>
    obtain rfl := h
    rw [Books.opening, settleCounter_opening, Books.agree_iff_unused, Exit.Accountable]
    omega
  | done u =>
    obtain rfl := h
    rw [Books.opening, settleCounter_opening, Books.agree_iff_counter]
    cases close
    all_goals simp [Exit.Accountable]
  | errorDelta u =>
    obtain rfl := h
    rw [Books.opening, settleCounter_opening, Books.agree_iff_unused]
    cases close with
    | none =>
      simp [Exit.Accountable]
    | some e =>
      simp only [Exit.Accountable, Option.isSome_some, if_true, reduceCtorEq, false_or]
      constructor
      · rintro ⟨unused, again⟩
        rw [unused, Nat.add_zero] at again
        exact ⟨unused, again⟩
      · rintro ⟨unused, again⟩
        rw [unused, Nat.add_zero]
        exact ⟨rfl, again⟩

/-- A stream that does not raise and delivers a final delta does not just stop. -/
theorem scan_finished {f : Faults} {ending : Option Exn} {arrivals : List Arrival}
    (closed : ending = none → ∃ a ∈ arrivals, a.delta.isFinal) (n checked : ℕ)
    (u : Option Usage) :
  scan f ending arrivals n checked u ≠ .unfinished
  := by
  induction arrivals generalizing n checked u with
  | nil =>
    cases ending with
    | none => simp at closed
    | some e => simp [scan]
  | cons a rest ih =>
    have step : a.delta.isFinal = false → ∀ n checked u,
        scan f ending rest n checked u ≠ .unfinished := by
      intro notFinal
      apply ih
      intro h
      obtain ⟨x, hx, final⟩ := closed h
      obtain rfl | hx := List.mem_cons.mp hx
      · rw [notFinal] at final
        cases final
      · exact ⟨x, hx, final⟩
    unfold scan
    simp only
    split_ifs
    · simp
    · simp
    · simp
    · cases hδ : a.delta with
      | error δ => simp
      | provided δ =>
        rw [hδ] at step
        cases δ with
        | done δ => simp
        | text δ => exact step rfl _ _ _
        | usage u => exact step rfl _ _ _
        | toolCall δ => exact step rfl _ _ _

/-- The streams of the gateway do not just stop. -/
theorem closed_of_streamChat {gw : AIGateway} {request : ChatRequest} {script : Script}
    (one : ∀ p ∈ gw.chat, p.OneUsage)
    (deltas : script.arrivals.map (·.delta) = (gw.streamChat request).yielded)
    (ending : script.ending = none → (gw.streamChat request).outcome = .returned) :
  script.ending = none → ∃ a ∈ script.arrivals, a.delta.isFinal
  := by
  intro h
  obtain ⟨δ, hδ, final⟩ := gw.streamChat_final request one (ending h)
  rw [← deltas, List.mem_map] at hδ
  obtain ⟨a, ha, rfl⟩ := hδ
  exact ⟨a, ha, final⟩

/-- Where Redis and the database do not fail, and the stream of the gateway ends in an error, a
final delta or an exception, the ledgers agree exactly if the turn is accountable: it has not
failed with tokens used, and no second settlement has moved the counter. -/
theorem generate_accounts (turn : TurnStarted) (script : Script) (f : Faults)
    (r : QuotaReservation) (base : ℕ) (reserved : turn.tokenReservation = some r)
    (closed : script.ending = none → ∃ a ∈ script.arrivals, a.delta.isFinal) :
  ((Books.opening base r).after turn.messageId
      (effects (generateLog turn script f.oracle))).Agree base ↔
    (ending f script).Accountable f.close r base
  := by
  have finished : ending f script ≠ .unfinished := by
    unfold ending
    split
    · simp
    · exact scan_finished closed _ _ _
  apply Exit.agree_iff finished
  exact generateLog_books reserved script finished

/-- The ledgers agree on an answer that ends normally. -/
theorem generate_accounts_sample :
  ((Books.opening 100 ⟨1, "tokens_month", 2000, "t:1:quota:tokens_month"⟩).after 7
      (effects (generateLog sampleTurn sampleScript (Faults.oracle {})))).Agree 100
  := by
  apply (generate_accounts sampleTurn sampleScript {} _ 100 rfl _).mpr
  · left
    rfl
  · intro _
    use ⟨.provided (.done ⟨"stop"⟩), 30, false⟩
    simp [sampleScript, ProviderDelta.isDone]

/-- The sample answer, interrupted by the provider after one word. -/
def interruptedScript : Script :=
  { sampleScript with
    arrivals :=
      [⟨.provided (.text ⟨"hi"⟩), 10, false⟩,
        ⟨.provided (.usage { promptTokens := 10, completionTokens := 5 }), 20, false⟩,
        ⟨.error { cause := "ProviderUnavailableError" }, 30, false⟩] }

/-- An interrupted answer is charged and stored, and not logged. -/
theorem generate_accounts_interrupted :
  ¬ ((Books.opening 100 ⟨1, "tokens_month", 2000, "t:1:quota:tokens_month"⟩).after 7
      (effects (generateLog sampleTurn interruptedScript (Faults.oracle {})))).Agree 100
  := by
  decide

end Lumina.Chat
