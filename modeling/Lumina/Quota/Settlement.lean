import Lumina.Library.Table
import Lumina.Quota.Clients
import Mathlib.Algebra.Order.BigOperators.Group.List

/-!
# Settlements side by side

Any number of `commit` and `release` calls of one counter run side by side, command by command. A
call that finds the counter negative after its first command puts back what is missing with a second
one, by the value that it has seen. As long as no counter becomes negative while such a compensation
is still to come, the calls have the effect of the same calls one after the other, in the order of
their first commands; two calls that both see a negative value both put back what is missing.
-/

namespace Lumina.Quota

open Interleaving Transition

/-- A call that settles a reservation. -/
inductive Settlement where
  | commit (r : QuotaReservation) (actual : Option ℕ)
  | release (r : QuotaReservation)
deriving DecidableEq, Repr

namespace Settlement

def program : Settlement → Prog Unit
  | .commit r actual => Quota.commit r actual
  | .release r => Quota.release r

def reservation : Settlement → QuotaReservation
  | .commit r _ => r
  | .release r => r

/-- What the first command adds to the counter, if there is a command at all. -/
def delta : Settlement → Option ℤ
  | .commit _ none => none
  | .commit r (some actual) => if actual = r.amount then none else some (actual - r.amount)
  | .release r => some (-r.amount)

/-- What follows the first command, with its reply. -/
def closing (c : Settlement) (value : ℤ) : Prog Unit := do
  clamp value
  keepExpiry c.reservation

/-- The counter after the call, if nothing comes in between. -/
def after (x : ℤ) (c : Settlement) : ℤ :=
  c.delta.elim x fun δ => max 0 (x + δ)

/-- The call from its beginning to its end, with nothing in between. -/
def alone (s : Store) (c : Settlement) : Store :=
  (c.program.run (fun op s => (.ok (s.exec op).1, (s.exec op).2)) s).2

/-- The calls one after the other. -/
def inTurn (calls : List Settlement) (s : Store) : Store :=
  calls.foldl alone s

end Settlement

/-! ### The machine -/

/-- A call under way: what is left of it after its last command, or nothing yet. -/
structure Settling where
  call : Settlement
  rest : Option (Prog Unit) := none

namespace Settling

def program (c : Settling) : Prog Unit := c.rest.getD c.call.program

def finished (c : Settling) : Bool :=
  match c.program with
  | .pure () => true
  | _ => false

/-- What the call is still to put back. -/
def pending (c : Settling) : ℤ :=
  match c.rest with
  | some (.call (.incrby n) _) => n
  | _ => 0

/-- The call, once its first command is done. -/
def begun (c : Settling) : List Settlement :=
  if c.rest.isSome then [c.call] else []

/-- The call, as long as no command of it is done. -/
def waiting (c : Settling) : List Settlement :=
  if c.rest.isSome then [] else [c.call]

end Settling

structure Settlements where
  store : Store
  calls : List Settling

namespace Settlements

/-- One command of one of the calls. -/
def step (i : ℕ) (s : Settlements) : Option Settlements := do
  let c ← s.calls[i]?
  let (p, store, _) ← advance c.program s.store
  some { store := store, calls := s.calls.set i { c with rest := some p } }

/-- All calls have returned. -/
def finished (s : Settlements) : Bool := s.calls.all Settling.finished

def pending (s : Settlements) : ℤ := (s.calls.map Settling.pending).sum

/-- The first command of a call does not make the counter negative while another call is still to
put something back. -/
def Guard (s : Settlements) (i : ℕ) : Prop :=
  ∀ c ∈ s.calls[i]?, c.rest.isNone → ∀ δ ∈ c.call.delta, s.store.counter + δ < 0 →
    ∀ c' ∈ s.calls, c'.pending = 0

instance (s : Settlements) (i : ℕ) : Decidable (s.Guard i) :=
  inferInstanceAs <| Decidable <| ∀ c ∈ s.calls[i]?, c.rest.isNone → ∀ δ ∈ c.call.delta,
    s.store.counter + δ < 0 → ∀ c' ∈ s.calls, c'.pending = 0

end Settlements

/-- The calls over a counter, or a key that is missing and counts as zero. -/
def settlements (key : Option ℤ) (calls : List Settlement) : Machine Settlements ℕ where
  init s := s = { store := { counter := key.getD 0 }, calls := calls.map ({ call := · }) }
  step := Settlements.step

/-! ### A call by itself -/

namespace Settlement

variable {c : Settlement}

theorem program_of_none (h : c.delta = none) : c.program = .pure () := by
  cases c with
  | release r => cases h
  | commit r actual =>
    cases actual with
    | none => rfl
    | some actual =>
      by_cases same : actual = r.amount
      · exact if_pos same
      · rw [delta, if_neg same] at h
        cases h

/-- A call begins with its first command. -/
theorem advance_program {δ : ℤ} (h : c.delta = some δ) (s : Store) :
  advance c.program s =
    some (c.closing (s.counter + δ), { s with counter := s.counter + δ }, δ)
  := by
  cases c with
  | release r =>
    cases h
    rfl
  | commit r actual =>
    cases actual with
    | none => cases h
    | some actual =>
      by_cases same : actual = r.amount
      · rw [delta, if_pos same] at h
        cases h
      · rw [delta, if_neg same] at h
        cases h
        unfold program Quota.commit
        dsimp only
        rw [if_neg same]
        rfl

/-- The run of a program goes on after its first operation. -/
theorem run_of_advance {p q : Prog Unit} {s t : Store} {δ : ℤ}
    (h : advance p s = some (q, t, δ)) :
  p.run (fun op s => (.ok (s.exec op).1, (s.exec op).2)) s =
    q.run (fun op s => (.ok (s.exec op).1, (s.exec op).2)) t
  := by
  cases p with
  | call op next =>
    cases h
    rfl
  | pure _ => cases h
  | raise _ => cases h

/-- The effect of a call that nothing comes in between. -/
theorem alone_counter (s : Store) : (alone s c).counter = c.after s.counter := by
  unfold after
  cases h : c.delta with
  | none =>
    unfold alone
    rw [program_of_none h]
    rfl
  | some δ =>
    unfold alone
    rw [run_of_advance (advance_program h s)]
    unfold closing clamp
    by_cases negative : s.counter + δ < 0
    · rw [if_pos negative, Option.elim_some, max_eq_left negative.le]
      exact add_neg_cancel (s.counter + δ)
    · rw [if_neg negative, Option.elim_some, max_eq_right (not_lt.mp negative)]
      rfl

/-- The effect of the calls one after the other. -/
theorem inTurn_counter (calls : List Settlement) (s : Store) :
  (inTurn calls s).counter = calls.foldl after s.counter
  := by
  induction calls generalizing s with
  | nil => rfl
  | cons c calls ih => exact (ih (alone s c)).trans (congrArg (calls.foldl after) (alone_counter s))

/-- The rest of a call: it puts something back, it looks after the expiry, or it returns. -/
inductive Rest (r : QuotaReservation) : ℤ → Prog Unit → Prop where
  | compensating {n : ℤ} : 0 < n → Rest r n (clamp (-n) >>= fun _ => keepExpiry r)
  | expiring : Rest r 0 (keepExpiry r)
  | done : Rest r 0 (.pure ())

/-- What follows the first command puts back as much as the counter is below zero. -/
theorem rest_closing (value : ℤ) :
  Rest c.reservation (max 0 (-value)) (c.closing value)
  := by
  unfold closing
  by_cases negative : value < 0
  · rw [max_eq_right (by omega)]
    conv_rhs => rw [← neg_neg value]
    exact Rest.compensating (by omega)
  · rw [max_eq_left (by omega)]
    unfold clamp
    rw [if_neg negative]
    exact Rest.expiring

theorem Rest.nonneg {r : QuotaReservation} {n : ℤ} {p : Prog Unit} (h : Rest r n p) : 0 ≤ n := by
  cases h with
  | compensating positive => exact positive.le
  | expiring => exact le_refl 0
  | done => exact le_refl 0

/-- What is pending of a call can be seen from what is left of it. -/
theorem Rest.pending {r : QuotaReservation} {n : ℤ} {p : Prog Unit} (h : Rest r n p) :
  Settling.pending ⟨c, some p⟩ = n
  := by
  cases h with
  | compensating positive =>
    unfold clamp
    rw [if_pos (by omega)]
    exact neg_neg n
  | expiring => rfl
  | done => rfl

/-- A command of the rest moves what is pending into the counter. -/
theorem Rest.advance {r : QuotaReservation} {n δ : ℤ} {p q : Prog Unit} (h : Rest r n p)
    {s t : Store} (hadvance : advance p s = some (q, t, δ)) :
  ∃ m, Rest r m q ∧ t.counter + m = s.counter + n
  := by
  cases h with
  | compensating positive =>
    unfold clamp at hadvance
    rw [if_pos (by omega)] at hadvance
    cases hadvance
    refine ⟨0, Rest.expiring, ?_⟩
    change s.counter + - -n + 0 = s.counter + n
    omega
  | expiring =>
    cases hadvance
    exact ⟨0, Rest.done, rfl⟩
  | done => cases hadvance

/-- No call makes the counter negative, and a command of one is enough to make it non-negative. -/
theorem foldl_after_nonneg {calls : List Settlement} {x : ℤ}
    (h : 0 ≤ x ∨ ∃ c ∈ calls, c.delta.isSome) :
  0 ≤ calls.foldl after x
  := by
  induction calls generalizing x with
  | nil =>
    obtain nonneg | ⟨_, ⟨⟩, -⟩ := h
    exact nonneg
  | cons c calls ih =>
    apply ih
    unfold after
    cases hdelta : c.delta with
    | some δ =>
      left
      exact le_max_left 0 (x + δ)
    | none =>
      obtain nonneg | ⟨c', mem, changes⟩ := h
      · left
        exact nonneg
      · obtain rfl | mem := List.mem_cons.mp mem
        · rw [hdelta] at changes
          cases changes
        · right
          exact ⟨c', mem, changes⟩

theorem foldl_after_of_none {calls : List Settlement} (h : ∀ c ∈ calls, c.delta = none) (x : ℤ) :
  calls.foldl after x = x
  := by
  induction calls with
  | nil => rfl
  | cons c calls ih =>
    have same : after x c = x := by
      unfold after
      rw [h c List.mem_cons_self]
      rfl
    rw [List.foldl_cons, same]
    exact ih fun c hc => h c (List.mem_cons_of_mem _ hc)

end Settlement

/-! ### The calls side by side -/

namespace Settlements

open Settlement

/-- The calls that have begun, in an order in which they have the effect that the counter will show
when nothing is pending any more. -/
structure Ordered (initial : ℤ) (order : List Settlement) (s : Settlements) : Prop where
  perm : order.Perm (s.calls.flatMap Settling.begun)
  value : s.store.counter + s.pending = order.foldl after initial
  rest : ∀ c ∈ s.calls, ∀ p, c.rest = some p → Rest c.call.reservation c.pending p

variable {initial : ℤ} {order : List Settlement} {s s' : Settlements}

/-- At the beginning no call has begun. -/
theorem ordered_init (x : ℤ) (calls : List Settlement) :
  Ordered x [] ⟨{ counter := x }, calls.map ({ call := · })⟩
  := by
  have rest : ∀ c ∈ calls.map fun call => ({ call := call } : Settling), c.rest = none := by
    intro c hc
    obtain ⟨call, -, rfl⟩ := List.mem_map.mp hc
    rfl
  constructor
  · have none : (calls.map ({ call := · })).flatMap Settling.begun = [] := by
      apply List.flatMap_eq_nil_iff.mpr
      intro c hc
      unfold Settling.begun
      rw [rest c hc]
      rfl
    rw [none]
  · have none : ((calls.map ({ call := · })).map Settling.pending).sum = 0 := by
      apply List.sum_eq_zero
      intro n hn
      obtain ⟨c, hc, rfl⟩ := List.mem_map.mp hn
      unfold Settling.pending
      rw [rest c hc]
    exact (congrArg (x + ·) none).trans (add_zero x)
  · intro c hc p hp
    cases (rest c hc).symm.trans hp

/-- A command is the first one of its call, or one of the rest of it. -/
theorem step_cases {i : ℕ} (h : step i s = some s') :
  ∃ c, s.calls[i]? = some c ∧
    ((c.rest = none ∧ ∃ δ, c.call.delta = some δ ∧
        s' = ⟨{ s.store with counter := s.store.counter + δ },
          s.calls.set i ⟨c.call, some (c.call.closing (s.store.counter + δ))⟩⟩) ∨
      ∃ p q t δ, c.rest = some p ∧ advance p s.store = some (q, t, δ) ∧
        s' = ⟨t, s.calls.set i ⟨c.call, some q⟩⟩)
  := by
  unfold step at h
  obtain ⟨c, hc, h⟩ := Option.bind_eq_some_iff.mp h
  obtain ⟨⟨q, t, δ⟩, hadvance, h⟩ := Option.bind_eq_some_iff.mp h
  cases h
  refine ⟨c, hc, ?_⟩
  unfold Settling.program at hadvance
  cases hrest : c.rest with
  | none =>
    left
    rw [hrest] at hadvance
    change advance c.call.program s.store = _ at hadvance
    cases hdelta : c.call.delta with
    | none =>
      rw [program_of_none hdelta] at hadvance
      cases hadvance
    | some δ =>
      rw [advance_program hdelta] at hadvance
      cases hadvance
      exact ⟨rfl, _, rfl, rfl⟩
  | some p =>
    right
    rw [hrest] at hadvance
    exact ⟨p, q, t, δ, rfl, hadvance, rfl⟩

theorem Ordered.pending_nonneg (h : Ordered initial order s) {c : Settling} (hc : c ∈ s.calls) :
  0 ≤ c.pending
  := by
  cases hrest : c.rest with
  | none =>
    unfold Settling.pending
    rw [hrest]
  | some p => exact (h.rest c hc p hrest).nonneg

/-- What is left of each call after one of them has gone on. -/
theorem Ordered.rest_set (h : Ordered initial order s) {i : ℕ} {c : Settlement} {n : ℤ}
    {p : Prog Unit} (hp : Rest c.reservation n p) :
  ∀ c' ∈ s.calls.set i ⟨c, some p⟩, ∀ q, c'.rest = some q →
    Rest c'.call.reservation c'.pending q
  := by
  intro c' hc' q hq
  obtain hc' | rfl := List.mem_or_eq_of_mem_set hc'
  · exact h.rest c' hc' q hq
  · cases hq
    rw [hp.pending]
    exact hp

/-- A command that satisfies the guard leaves the calls in order; the first one of a call puts it at
the end. -/
theorem Ordered.step (h : Ordered initial order s) {i : ℕ} (guard : s.Guard i)
    (hstep : Settlements.step i s = some s') :
  ∃ order', Ordered initial order' s'
  := by
  obtain ⟨c, hc, ⟨hrest, δ, hdelta, rfl⟩ | ⟨p, q, t, δ, hrest, hadvance, rfl⟩⟩ :=
    step_cases hstep
  · have closing := rest_closing (c := c.call) (s.store.counter + δ)
    generalize hafter : (⟨c.call, some (c.call.closing (s.store.counter + δ))⟩ : Settling) = c'
    have old : c.pending = 0 := by
      unfold Settling.pending
      rw [hrest]
    have new : c'.pending = max 0 (-(s.store.counter + δ)) := by
      rw [← hafter]
      exact closing.pending
    use order ++ [c.call]
    constructor
    · have perm := Table.flatMap_set_perm Settling.begun c' hc
      have before : c.begun = [] := by
        unfold Settling.begun
        rw [hrest]
        rfl
      have now : c'.begun = [c.call] := by
        rw [← hafter]
        rfl
      rw [before, now, List.append_nil] at perm
      exact (h.perm.append_right _).trans perm.symm
    · have sum := Table.sum_map_set Settling.pending c' hc
      have nonneg : 0 ≤ s.pending := by
        apply List.sum_nonneg
        intro n hn
        obtain ⟨c, hc, rfl⟩ := List.mem_map.mp hn
        exact h.pending_nonneg hc
      have none : s.store.counter + δ < 0 → s.pending = 0 := by
        intro negative
        apply List.sum_eq_zero
        intro n hn
        obtain ⟨c', hc', rfl⟩ := List.mem_map.mp hn
        exact guard c hc (Option.isNone_iff_eq_none.mpr hrest) δ hdelta negative c' hc'
      have value := h.value
      rw [List.foldl_append, ← value]
      change s.store.counter + δ + ((s.calls.set i c').map Settling.pending).sum =
        after (s.store.counter + s.pending) c.call
      unfold after
      rw [hdelta, Option.elim_some]
      unfold pending at *
      omega
    · rw [← hafter]
      exact h.rest_set closing
  · obtain ⟨m, hq, moved⟩ := (h.rest c (List.mem_of_getElem? hc) p hrest).advance hadvance
    have new : Settling.pending ⟨c.call, some q⟩ = m := hq.pending
    use order
    constructor
    · have perm := Table.flatMap_set_perm Settling.begun ⟨c.call, some q⟩ hc
      have same : c.begun = Settling.begun ⟨c.call, some q⟩ := by
        unfold Settling.begun
        rw [hrest]
        rfl
      rw [same, List.perm_append_right_iff] at perm
      exact h.perm.trans perm.symm
    · have sum := Table.sum_map_set Settling.pending ⟨c.call, some q⟩ hc
      have value := h.value
      change t.counter + ((s.calls.set i ⟨c.call, some q⟩).map Settling.pending).sum = _
      unfold pending at value
      omega
    · exact h.rest_set hq

/-- What is left of the calls when all have returned: those that have begun have nothing pending,
and the others have no command. -/
theorem pending_of_finished (finished : s.finished) :
  s.pending = 0 ∧ ∀ c ∈ s.calls.flatMap Settling.waiting, c.delta = none
  := by
  have ended : ∀ c ∈ s.calls, c.finished := List.all_eq_true.mp finished
  constructor
  · apply List.sum_eq_zero
    intro n hn
    obtain ⟨c, hc, rfl⟩ := List.mem_map.mp hn
    have done := ended c hc
    unfold Settling.finished Settling.program at done
    unfold Settling.pending
    cases hrest : c.rest with
    | none => rfl
    | some p =>
      rw [hrest] at done
      cases p with
      | call op next => cases done
      | _ => rfl
  · intro call hcall
    obtain ⟨c, hc, hcall⟩ := List.mem_flatMap.mp hcall
    have done := ended c hc
    unfold Settling.waiting at hcall
    unfold Settling.finished Settling.program at done
    cases hrest : c.rest with
    | some p =>
      rw [hrest] at hcall
      cases hcall
    | none =>
      rw [hrest] at hcall done
      rw [List.mem_singleton.mp hcall]
      cases hdelta : c.call.delta with
      | none => rfl
      | some δ =>
        have begins := advance_program hdelta s.store
        change (match c.call.program with | .pure () => true | _ => false) = true at done
        cases program : c.call.program with
        | pure _ =>
          rw [program] at begins
          cases begins
        | _ =>
          rw [program] at done
          cases done

/-- A call has begun or it has not. -/
theorem begun_append_waiting (calls : List Settling) :
  (calls.flatMap Settling.begun ++ calls.flatMap Settling.waiting).Perm (calls.map (·.call))
  := by
  induction calls with
  | nil => exact List.Perm.refl []
  | cons c calls ih =>
    rw [List.flatMap_cons, List.flatMap_cons, List.map_cons]
    unfold Settling.begun Settling.waiting at *
    cases c.rest with
    | none => exact List.perm_middle.trans (ih.cons c.call)
    | some p => exact ih.cons c.call

/-- The calls stay the same ones. -/
theorem calls_step {i : ℕ} (h : step i s = some s') :
  s'.calls.map (·.call) = s.calls.map (·.call)
  := by
  have same (c : Settling) (p : Prog Unit) (hc : s.calls[i]? = some c) :
      (s.calls.set i ⟨c.call, some p⟩).map (·.call) = s.calls.map (·.call) := by
    obtain ⟨below, rfl⟩ := List.getElem?_eq_some_iff.mp hc
    rw [List.map_set]
    have same := List.set_getElem_self (s.calls.length_map (·.call) ▸ below)
    rw [List.getElem_map] at same
    exact same
  obtain ⟨c, hc, ⟨-, _, -, rfl⟩ | ⟨_, q, _, _, -, -, rfl⟩⟩ := step_cases h
  · exact same c _ hc
  · exact same c q hc

end Settlements

/-- Calls whose first commands never make the counter negative while something is still to be put
back have the effect of the calls one after the other in some order, and the counter is not
negative, if it was not at the beginning or there is a command at all. -/
theorem settlements_linearizable {key : Option ℤ} {calls : List Settlement}
    {h : List (Settlements × ℕ)} {s : Settlements} (run : (settlements key calls).Run h s)
    (guard : ∀ x ∈ h, Settlements.Guard x.1 x.2)
    (start : 0 ≤ key.getD 0 ∨ ∃ c ∈ calls, c.delta.isSome) (finished : s.finished) :
  0 ≤ s.store.counter ∧ ∃ order, order.Perm calls ∧
    s.store.counter = (Settlement.inTurn order { counter := key.getD 0 }).counter
  := by
  have same : s.calls.map (·.call) = calls := by
    apply run.invariant (I := fun s => s.calls.map (·.call) = calls)
    · rintro _ rfl
      exact (List.map_map).trans (List.map_id calls)
    · intro i s t before hstep
      exact (Settlements.calls_step hstep).trans before
  obtain ⟨order, ordered⟩ : ∃ order, Settlements.Ordered (key.getD 0) order s := by
    apply run.invariant_of_guard (I := fun s => ∃ order, Settlements.Ordered (key.getD 0) order s)
      (G := fun s i => s.Guard i) _ _ guard
    · rintro _ rfl
      exact ⟨[], Settlements.ordered_init _ calls⟩
    · rintro i s t ⟨order, before⟩ guard hstep
      exact before.step guard hstep
  obtain ⟨settled, none⟩ := Settlements.pending_of_finished finished
  have perm : (order ++ s.calls.flatMap Settling.waiting).Perm calls := by
    rw [← same]
    exact (ordered.perm.append_right _).trans (Settlements.begun_append_waiting s.calls)
  have value : s.store.counter = (order ++ s.calls.flatMap Settling.waiting).foldl
      Settlement.after (key.getD 0) := by
    rw [List.foldl_append, Settlement.foldl_after_of_none none, ← ordered.value, settled, add_zero]
  constructor
  · rw [value]
    apply Settlement.foldl_after_nonneg
    exact start.imp_right fun ⟨c, hc, changes⟩ => ⟨c, perm.mem_iff.mpr hc, changes⟩
  · refine ⟨_, perm, value.trans ?_⟩
    exact (Settlement.inTurn_counter _ { counter := key.getD 0 }).symm

/-- Two releases of one unit each, of which the second one begins when the first one has put back
what it had taken too much. -/
theorem settlements_linearizable_apart :
  let calls : List Settlement := [.release ⟨1, 60⟩, .release ⟨1, 60⟩]
  ∃ h s, (settlements (some 0) calls).Run h s ∧ s.finished ∧ 0 ≤ s.store.counter ∧
    ∃ order, order.Perm calls ∧
      s.store.counter = (Settlement.inTurn order { counter := 0 }).counter
  := by
  intro calls
  obtain ⟨h, s, run, guard, finished⟩ :=
    (settlements (some 0) calls).exists_run_of_execWhile [0, 0, 1, 0, 1, 1]
      (fun s i => decide (s.Guard i)) (fun s : Settlements => s.finished) rfl (by decide +kernel)
  refine ⟨h, s, run, finished, ?_⟩
  exact settlements_linearizable run (fun x hx => of_decide_eq_true (guard x hx))
    (Or.inl (le_refl 0)) finished

/-- Two releases of one unit each that both see a negative value leave one unit in the counter. -/
theorem releases_compensate_twice :
  let calls : List Settlement := [.release ⟨1, 60⟩, .release ⟨1, 60⟩]
  ∃ h s, (settlements none calls).Run h s ∧ s.finished ∧ s.store.counter = 1 ∧
    ∀ order, order.Perm calls →
      s.store.counter ≠ (Settlement.inTurn order { counter := 0 }).counter
  := by
  intro calls
  obtain ⟨h, s, run, hs⟩ := (settlements none calls).exists_run_of_exec [0, 1, 0, 1, 0, 1]
    (fun s : Settlements => s.finished && decide (s.store.counter = 1)) rfl (by decide +kernel)
  rw [Bool.and_eq_true, decide_eq_true_eq] at hs
  obtain ⟨finished, counter⟩ := hs
  refine ⟨h, s, run, finished, counter, ?_⟩
  intro order perm
  have same : order = List.replicate 2 (.release ⟨1, 60⟩) := List.perm_replicate.mp perm
  rw [counter, same]
  decide +kernel

end Lumina.Quota
